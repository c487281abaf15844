import Shading.Proofs.Ir.Conservation
import Shading.Proofs.Ir.Prune
import Shading.Proofs.Lowering.Assigned
import Shading.Proofs.Lowering.Made
import Shading.Proofs.Lowering.Tree
import Shading.Proofs.Simplify.Outcome

/-!
# Lowering any tree

Whatever tree is lowered, if that succeeds, the builder holds a graph, operands
of instructions are not blocks unless an instruction jumps to them, and blocks
that were made in advance were entered or dropped.  `Lower.Moves` is this
invariant for an action: the blocks that wait before it and after it, with the
spans that its errors can name and the number of entries that it stores at
most, 24 for each node (`Lower.entryBody_moves`).
-/

namespace Shading

open Build List Form

variable {graph : Graph} {order pending : List ObjectId} {id val : ObjectId} {ir : Builder} {lhs rhs : Lowered}
  {cond? : Option Lowered} {blocks : Lower.LoopBlocks} {st : LoweringState}
  {opds other : List ObjectId} {base left right tgt : ObjectId} {opcode : Opcode} {act : Lower Unit}
  {code : InstCode} {type : ValueType} {form : Form Lowered} {step? : Option Lowered} {lim? : Option Nat}
  {sources : List ObjectId} {error : LoweringError} {prog : Program}

lemma Builder.isOperand_of_kind? {kind : ObjectKind} (hk : ir.kind? id = some kind)
    (hb : kind.block? = none) : ir.IsOperand id := by
  refine ⟨kind.unlinked, by rw [shape?, hk, Option.map_some], ?_⟩
  cases kind with
  | block inside => cases hb
  | _ => rfl

namespace Build

open Builder

/-- An instruction of some kind was appended that names no blocks but those it jumps to. -/
structure Extended (ir : Builder) (order : List ObjectId) (target : ObjectId) (fits : Instruction → Prop)
    (later : Builder) : Prop where
  sound : later.Sound [] [] [] []
  ordered : later.Ordered order
  appends : ∃ inst instr, ir.Appends target inst instr later ∧ fits instr ∧
    ∀ operand ∈ instr.operands, ∀ inside, ir.shape? operand = some (.block inside) → operand ∈ instr.targets

variable {fits : Instruction → Prop}

/-- Appending succeeds only if block and operands are there. -/
lemma emit_extended (h : ir.Sound [] [] [] []) (horder : ir.Ordered order) (hfits : fits ⟨opcode, opds⟩)
    (hopds : ∀ opd ∈ opds, ir.IsOperand opd ∨ opd ∈ (⟨opcode, opds⟩ : Instruction).targets) :
    Ends (emit tgt opcode opds) ir (fun _ later => Extended ir order tgt fits later) fun _ _ => True := by
  have hnames : ∀ opd ∈ opds, ∀ inside, ir.shape? opd = some (.block inside) →
      opd ∈ (⟨opcode, opds⟩ : Instruction).targets := by
    intro opd hm inside hin
    rcases hopds opd hm with ⟨kind, hk, hb⟩ | htgt
    · rw [hk] at hin
      cases hin
      cases hb
    · exact htgt
  refine (emit_ends h horder).mono ?_ fun _ _ _ => trivial
  rintro inst later ⟨hs, ho, happ⟩
  exact ⟨hs, ho, inst, _, happ, hfits, hnames⟩

lemma emits_extended {dst src : ObjectId} {access : AccessWidth → InstCode} (h : ir.Sound [] [] [] [])
    (horder : ir.Ordered order) (hfits : ∀ width, fits ⟨.scalar (access width), [dst, src]⟩) :
    Emits (fun _ later => Extended ir order tgt fits later) (fun _ _ => True) ir tgt dst src access := by
  refine fun width hkinds => emit_extended h horder (hfits width) fun opd hm => ?_
  obtain ⟨kind, hk, hb⟩ := hkinds opd hm
  exact .inl (isOperand_of_kind? hk hb)

end Build

/-! ## States -/

namespace LoweringState

open Builder

/-- Registers of the locals. -/
def registers (state : LoweringState) : List ObjectId := state.locals.map Prod.snd

/-- The state holds the graph, locals are not blocks, and registers are written
and read as they should be. -/
structure Drawn (graph : Graph) (order : List ObjectId) (state : LoweringState) : Prop where
  draws : state.builder.Draws graph order state.base
  current : state.current = graph.current
  locals : ∀ id ∈ state.registers, state.builder.HasRegister id
  assigned : graph.Assigned state.builder state.base state.registers

/-- The state holds some graph in which certain blocks wait. -/
def Waits (pending : List ObjectId) (st : LoweringState) : Prop :=
  ∃ graph order, st.Drawn graph order ∧ graph.pending.Perm pending

lemma Waits.perm (h : st.Waits pending) (hperm : pending.Perm other) : st.Waits other := by
  obtain ⟨graph, order, hdrawn, hpend⟩ := h
  exact ⟨graph, order, hdrawn, hpend.trans hperm⟩

/-- The current block is open, and some instruction in it writes the register. -/
def Written (state : LoweringState) (id : ObjectId) : Prop :=
  state.terminated = false ∧ ∃ code, state.builder.listing? state.current = some code ∧ ∃ instr ∈ code,
    instr.written? = some id

/-- An operand that the next instruction can read. -/
def Held (state : LoweringState) (id : ObjectId) : Prop :=
  state.builder.IsOperand id ∧ ((state.builder.Fixed state.base id ∨ id ∈ state.registers) ∨ state.Written id)

/-- A register that is not in use yet. -/
structure Fresh (state : LoweringState) (id : ObjectId) : Prop where
  register : state.builder.HasRegister id
  temporary : id ∉ state.base :: state.registers
  unwritten : ∀ inst instr, state.builder.instruction? inst = some instr → instr.written? ≠ some id

/-- What is held stays so. -/
structure Stays (state later : LoweringState) : Prop where
  grows : state.builder.Grows later.builder
  base : later.base = state.base
  locals : later.locals = state.locals
  written : ∀ id, state.Written id → later.Written id

/-- And no instruction is made. -/
structure Still (state later : LoweringState) : Prop extends Stays state later where
  code : ∀ inst instr, later.builder.instruction? inst = some instr → ∃ inst,
    state.builder.instruction? inst = some instr

/-- An instruction that reads what is held and writes a local or a new register. -/
def Fits (state : LoweringState) (instr : Instruction) : Prop :=
  (∀ id ∈ instr.reads, state.Held id) ∧
    ∀ id, instr.written? = some id → id ∈ state.registers ∧ instr.isMove = true ∨ state.Fresh id

variable {later : LoweringState} {dst : ObjectId} {instr : Instruction}

lemma Stays.refl (st : LoweringState) : st.Stays st := ⟨.refl _, rfl, rfl, fun _ h => h⟩

lemma Stays.trans {mid : LoweringState} (h : st.Stays mid) (h' : mid.Stays later) : st.Stays later :=
  ⟨h.grows.trans h'.grows, h'.base.trans h.base, h'.locals.trans h.locals, fun id hw =>
    h'.written id (h.written id hw)⟩

lemma Stays.registers (h : st.Stays later) : later.registers = st.registers :=
  by rw [LoweringState.registers, h.locals, LoweringState.registers]

lemma Held.stays (h : st.Held id) (hs : st.Stays later) : later.Held id := by
  obtain ⟨hopd, hheld⟩ := h
  refine ⟨hopd.grows hs.grows, ?_⟩
  rw [hs.base, hs.registers]
  exact hheld.imp (.imp_left (·.grows hs.grows)) (hs.written id)

lemma Fresh.still (h : st.Fresh id) (hs : st.Still later) : later.Fresh id := by
  refine ⟨h.register.grows hs.grows, ?_, fun inst instr hi => ?_⟩
  · rw [hs.base, hs.registers]
    exact h.temporary
  · obtain ⟨inst, hold⟩ := hs.code inst instr hi
    exact h.unwritten inst instr hold

/-- A pure instruction on held operands. -/
lemma Fits.pure (hpure : opcode.code.isPure = true) (hsrcs : ∀ source ∈ sources, st.Held source)
    (hdst : dst ∈ st.registers ∧ (⟨opcode, dst :: sources⟩ : Instruction).isMove = true ∨ st.Fresh dst) :
    st.Fits ⟨opcode, dst :: sources⟩ ∧ (⟨opcode, dst :: sources⟩ : Instruction).written? = some dst := by
  have hwritten : (⟨opcode, dst :: sources⟩ : Instruction).written? = some dst := if_pos hpure
  refine ⟨⟨fun id hm => ?_, fun id hw => ?_⟩, hwritten⟩
  · have hm := mem_of_mem_filter hm
    rw [if_pos hpure] at hm
    exact hsrcs id hm
  · cases hwritten.symm.trans hw
    exact hdst

lemma Fits.impure (hpure : opcode.code.isPure = false) (hopds : ∀ opd ∈ opds, st.Held opd ∨
    opd ∈ (⟨opcode, opds⟩ : Instruction).targets) :
    st.Fits ⟨opcode, opds⟩ ∧ (⟨opcode, opds⟩ : Instruction).written? = none := by
  have hwritten : (⟨opcode, opds⟩ : Instruction).written? = none := if_neg (by rw [hpure]; decide)
  refine ⟨⟨fun id hm => ?_, fun id hw => ?_⟩, hwritten⟩
  · obtain ⟨hm, hnot⟩ := mem_filter.mp hm
    rw [if_neg (by rw [hpure]; decide)] at hm
    exact (hopds id hm).resolve_right (of_decide_eq_true hnot)
  · rw [hwritten] at hw
    cases hw

namespace Drawn

variable {order' : List ObjectId} (h : st.Drawn graph order)
include h

lemma listing? : st.builder.listing? st.current = some graph.code := h.current ▸ h.draws.listing?_current

/-- The state with another builder, in which other blocks may wait. -/
lemma build (hdraws : ir.Draws { graph with pending := pending } order' st.base) (hgrows : st.builder.Grows ir) :
    ({ st with builder := ir } : LoweringState).Drawn { graph with pending := pending } order' ∧
      st.Still { st with builder := ir } := by
  have hassigned : ({ graph with pending := pending } : Graph).Assigned st.builder st.base st.registers :=
    ⟨h.assigned.nodup, h.assigned.settled, h.assigned.written, h.assigned.once⟩
  refine ⟨⟨hdraws, h.current, fun id hm => (h.locals id hm).grows hgrows, hassigned.grows hgrows⟩,
    ⟨hgrows, rfl, rfl, ?_⟩, fun inst instr hi => ?_⟩
  · rintro id ⟨hopen, code, hcode, hw⟩
    cases h.listing?.symm.trans hcode
    exact ⟨hopen, _, h.current ▸ hdraws.listing?_current, hw⟩
  · exact h.draws.live_iff.mpr (hdraws.live_iff.mp ⟨inst, hi⟩)

lemma fits (hfits : st.Fits instr) : (graph.emit [instr]).Assigned st.builder st.base st.registers := by
  refine h.assigned.emit (fun id hm => (hfits.1 id hm).2.imp_right ?_) fun id hw => ?_
  · rintro ⟨-, code, hcode, hw⟩
    cases h.listing?.symm.trans hcode
    exact hw
  · rcases hfits.2 id hw with hlocal | hfresh
    · exact ⟨h.locals id hlocal.1, .inl hlocal⟩
    refine ⟨hfresh.register, .inr ⟨hfresh.temporary, fun writer hm => ?_⟩⟩
    obtain ⟨inst, hi⟩ := h.draws.live_iff.mpr hm
    exact hfresh.unwritten inst writer hi

end Drawn

end LoweringState

namespace Lower

open Builder LoweringState

variable {α β : Type} {pre after : List ObjectId} {ok : Span → Prop} {span : Span} {lbl : Label} {m n : Nat}

/-- If blocks wait before an action that succeeds, others wait after it.  The
action stores at most so many entries and names only allowed spans. -/
def Moves (allowed : Span → Prop) (cost : Nat) (before after : List ObjectId) (x : Lower α) (st : LoweringState)
    (good : α → LoweringState → Prop) : Prop :=
  st.Waits before → Made allowed cost x st ∧ Ends x st (fun a later => later.Waits after ∧ good a later)
    fun _ => True

/-- The same blocks wait after an action, and what was held still is. -/
def Evaluates (allowed : Span → Prop) (cost : Nat) (x : Lower α) (st : LoweringState)
    (good : α → LoweringState → Prop) : Prop :=
  ∀ pending, Moves allowed cost pending pending x st fun a later => st.Stays later ∧ good a later

/-- Nothing is said of the result. -/
abbrev Any : α → LoweringState → Prop := fun _ _ => True

/-- The result can be read. -/
abbrev Operand : ObjectId → LoweringState → Prop := fun id later => later.Held id

variable {x : Lower α} {f : α → Lower β} {between : List ObjectId} {found : α → LoweringState → Prop}
  {good : β → LoweringState → Prop}

namespace Moves

lemma mono (hx : Moves ok m pre after x st found) (hle : m ≤ n) : Moves ok n pre after x st found :=
  fun hw => ⟨.mono (hx hw).1 hle, (hx hw).2⟩

lemma imp {left : α → LoweringState → Prop} (hx : Moves ok n pre after x st found)
    (himp : ∀ a later, found a later → left a later) : Moves ok n pre after x st left :=
  fun hw => ⟨(hx hw).1, (hx hw).2.imp fun a later hpost => ⟨hpost.1, himp a later hpost.2⟩⟩

lemma pure {a : α} (h : found a st) : Moves ok n pending pending (Pure.pure a) st found :=
  fun hw => ⟨.pure a, Ends.pure ⟨hw, h⟩⟩

lemma throw (h : error ≠ .ir .outOfMemory) (hspan : ∀ span ∈ error.span?, ok span) :
    Moves ok n pre after (MonadExcept.throw error : Lower α) st found := fun _ => ⟨.throw h hspan, trivial⟩

lemma unsupported {construct : Construct} (h : ok span) :
    Moves ok n pre after (unsupported construct span : Lower α) st found := by
  refine throw nofun fun _ hm => ?_
  cases hm
  exact h

lemma bind (hx : Moves ok m pre between x st found)
    (hf : ∀ a later, found a later → Moves ok n between after (f a) later good) :
    Moves ok (n + m) pre after (x >>= f) st good :=
  fun hw => Made.bindEnds (hx hw) fun a later hmid => hf a later hmid.2 hmid.1

lemma perm (hx : Moves ok n pre after x st found) (hperm : other.Perm pre) :
    Moves ok n other after x st found := fun hw => hx (hw.perm hperm)

/-- What the state holds can be looked at, but for the limit. -/
lemma get {f : LoweringState → Lower β} (hsame : ∀ limit?, f (st.under limit?) = f st)
    (hf : Moves ok n pre after (f st) st good) : Moves ok n pre after (MonadState.get >>= f) st good :=
  fun hw => ⟨.read (hf hw).1 hsame, (hf hw).2⟩

lemma modify {g : LoweringState → LoweringState} (hsame : ∀ limit?, g (st.under limit?) = (g st).under limit?)
    (hbuilder : (g st).builder = st.builder) (hbase : (g st).base = st.base)
    (hcur : (g st).current = st.current) (hlocals : (g st).locals = st.locals) :
    Moves ok 0 pending pending (modify g) st Any := by
  rintro ⟨graph, order, hdrawn, hperm⟩
  have hregs : (g st).registers = st.registers := congrArg (List.map Prod.snd) hlocals
  refine ⟨.update hbuilder hsame,
    (⟨⟨graph, order, ⟨?_, hcur.trans hdrawn.current, ?_, ?_⟩, hperm⟩, trivial⟩ : (g st).Waits pending ∧
      True)⟩
  · rw [hbuilder, hbase]
    exact hdrawn.draws
  · rw [hregs, hbuilder]
    exact hdrawn.locals
  · rw [hregs, hbuilder, hbase]
    exact hdrawn.assigned

end Moves

namespace Evaluates

lemma mono (hx : Evaluates ok m x st found) (hle : m ≤ n) : Evaluates ok n x st found :=
  fun pending => (hx pending).mono hle

lemma pure {a : α} (h : found a st) : Evaluates ok n (Pure.pure a) st found := fun _ => .pure ⟨.refl _, h⟩

lemma unsupported {construct : Construct} (h : ok span) :
    Evaluates ok n (unsupported construct span : Lower α) st found :=
  fun _ => .unsupported h

lemma imp {left : α → LoweringState → Prop} (hx : Evaluates ok n x st found) (himp : ∀ a later, found a later →
    left a later) : Evaluates ok n x st left :=
  fun pending => (hx pending).imp fun a later hpost => ⟨hpost.1, himp a later hpost.2⟩

/-- Something that is not an expression comes next. -/
lemma next (hx : Evaluates ok m x st found)
    (hf : ∀ a later, st.Stays later → found a later → Moves ok n pre after (f a) later good) :
    Moves ok (n + m) pre after (x >>= f) st good :=
  (hx pre).bind fun a later hpost => hf a later hpost.1 hpost.2

lemma bind (hx : Evaluates ok m x st found)
    (hf : ∀ a later, st.Stays later → found a later → Evaluates ok n (f a) later good) : Evaluates ok (n + m)
    (x >>= f) st good :=
  fun pending => hx.next fun a mid hstays hfound => (hf a mid hstays hfound pending).imp fun _ _ hpost =>
    ⟨hstays.trans hpost.1, hpost.2⟩

lemma moves (hx : Evaluates ok n x st found) : Moves ok n pending pending x st Any :=
  (hx pending).imp fun _ _ _ => trivial

end Evaluates

/-! ## Operands -/

lemma build_held {act : Build α} {good : α → LoweringState → Prop} (hmade : Build.Made n act)
    (h : ∀ graph order, st.Drawn graph order → Build.Ends act st.builder (fun a ir =>
      ir.Draws graph order st.base ∧ st.builder.Grows ir ∧ good a { st with builder := ir }) fun _ _ => True) :
    Evaluates ok n (build act) st fun a later => st.Still later ∧ good a later := by
  rintro pending ⟨graph, order, hdrawn, hperm⟩
  refine ⟨.build hmade, .build (h graph order hdrawn) ?_ fun _ _ _ => trivial⟩
  rintro a ir ⟨hdraws, hgrows, hfound⟩
  obtain ⟨hdrawn', hstill⟩ := hdrawn.build hdraws hgrows
  exact ⟨⟨graph, order, hdrawn', hperm⟩, hstill.toStays, hstill, hfound⟩

lemma newRegister_held (type : ValueType) :
    Evaluates ok 1 (build (newRegisterFor type)) st fun id later => st.Still later ∧ later.Fresh id := by
  refine build_held (.newRegisterFor type) fun graph order hdrawn => (hdrawn.draws.newRegister type).mono ?_
    fun _ _ _ => trivial
  rintro id ir ⟨hdraws, hnew⟩
  obtain ⟨num, hr⟩ := hnew.register
  refine ⟨hdraws, hnew.grows, ⟨_, hr⟩, fun hm => hnew.fresh ?_, fun inst instr hi hw => hnew.fresh ?_⟩
  · rcases mem_cons.mp hm with rfl | hm
    · exact HasRegister.isOperand hdrawn.draws.base
    · exact (hdrawn.locals id hm).isOperand
  · exact (hdrawn.assigned.written instr (hdraws.live_iff.mp ⟨inst, hi⟩) id hw).1.isOperand

lemma memberOperand_held (off : Int32) :
    Evaluates ok 1 (memberOperand off) st fun id later => st.Still later ∧ later.Held id :=
  fun pending => .get (fun _ => rfl) (build_held (.newMemory _ _) (fun _ _ hdrawn =>
    (hdrawn.draws.newMemory off).mono
      (fun _ _ ⟨hdraws, hgrows, hshape⟩ => ⟨hdraws, hgrows, ⟨_, hshape, rfl⟩,
        .inl (.inl (.inr ⟨off, hshape⟩))⟩) fun _ _ _ => trivial) pending)

lemma newImmediate_held (val : Value) (type : ValueType) :
    Evaluates ok 1 (build (newImmediateFor val type)) st fun id later => st.Still later ∧ later.Held id := by
  refine build_held (.newImmediateFor val type) fun _ _ hdrawn => (hdrawn.draws.newImmediate val type).mono ?_
    fun _ _ _ => trivial
  rintro id ir ⟨hdraws, hgrows, hlit⟩
  have hopd := hlit.isOperand
  obtain ⟨opd, hshape, -⟩ := hlit
  exact ⟨hdraws, hgrows, hopd, .inl (.inl (.inl ⟨opd, hshape⟩))⟩

/-! ## Blocks and instructions -/

lemma newBlock_drawn (h : st.Drawn graph order) :
    Ends (build newBlock) st (fun id later => later.Drawn (graph.add id) (order ++ [id]) ∧ st.Still later)
      fun _ => True := by
  refine .build h.draws.newBlock ?_ fun _ _ _ => trivial
  rintro id ir ⟨hdraws, hgrows, -⟩
  exact h.build hdraws hgrows

lemma Moves.newBlock {f : ObjectId → Lower β}
    (hf : ∀ id later, st.Stays later → Moves ok n (id :: pre) after (f id) later good) :
    Moves ok (n + 1) pre after (build newBlock >>= f) st good := by
  rintro ⟨graph, order, hdrawn, hperm⟩
  refine Made.bindEnds ⟨.build .newBlock, newBlock_drawn hdrawn⟩ ?_
  rintro id mid ⟨hmid, hstill⟩
  exact hf id mid hstill.toStays ⟨_, _, hmid, hperm.cons id⟩

/-- The last block of the list is the one to fill. -/
lemma drawn_enter (h : st.Drawn graph order) (hp : id ∈ graph.pending) (hlast : ∃ rest, order = rest ++ [id]) :
    ({ st with current := id, terminated := false } : LoweringState).Drawn (graph.enter id) order :=
  ⟨h.draws.enter hp hlast, rfl, h.locals, h.assigned.enter id⟩

lemma openBlock_drawn (h : st.Drawn graph order) :
    Ends openBlock st (fun id later => id = later.current ∧ later.terminated = false ∧ st.Still later ∧
      ∃ graph' order', later.Drawn graph' order' ∧ graph'.pending = graph.pending) fun _ => True := by
  cases hopen : st.terminated with
  | false =>
    rw [Ends, openBlock_run hopen]
    exact ⟨rfl, hopen, ⟨.refl _, fun inst _ hi => ⟨inst, hi⟩⟩, graph, order, h, rfl⟩
  | true =>
    have hnew : Ends (do
        let id ← build newBlock
        modify fun st => { st with current := id, terminated := false }
        return id) st (fun id later => id = later.current ∧ later.terminated = false ∧ st.Still later ∧
          ∃ graph' order', later.Drawn graph' order' ∧ graph'.pending = graph.pending) fun _ => True := by
      refine (newBlock_drawn h).bind ?_
      rintro id mid ⟨hmid, hstill⟩
      have hentered := drawn_enter hmid (.head _) ⟨order, rfl⟩
      have hpend : ((graph.add id).enter id).pending = graph.pending := erase_cons_head ..
      refine ⟨rfl, rfl, ⟨⟨hstill.grows, hstill.base, hstill.locals, fun id hw => ?_⟩, hstill.code⟩, _, _,
        hentered, hpend⟩
      -- Nothing is held in a finished block.
      rw [Written, hopen] at hw
      cases hw.1
    refine hnew.congr ?_
    change (if st.terminated = true then _ else _ : Lower ObjectId).run st = _
    rw [hopen]
    rfl

lemma append_drawn {known : Instruction → Prop} (h : st.Drawn graph order) {act : Build InstId}
    (hends : Build.Ends act st.builder
      (fun _ later => Build.Extended st.builder order st.current (fun instr => st.Fits instr ∧
        known instr) later) fun _ _ => True) :
    Ends (do let _ ← build act : Lower Unit) st (fun _ later => st.Stays later ∧
      later.terminated = st.terminated ∧
      ∃ instr, known instr ∧ later.Drawn (graph.emit [instr]) order) fun _ => True := by
  refine .ignore (.build hends ?_ fun _ _ _ => trivial)
  rintro - ir ⟨hs, ho, inst, instr, happ, ⟨hfits, hknown⟩, hnames⟩
  rw [h.current] at happ
  have hdraws := h.draws.emit hs happ ho hnames
  have hdrawn : ({ st with builder := ir } : LoweringState).Drawn (graph.emit [instr]) order :=
    ⟨hdraws, h.current, fun id hm => (h.locals id hm).grows happ.grows, (h.fits hfits).grows happ.grows⟩
  refine ⟨⟨happ.grows, rfl, rfl, ?_⟩, rfl, instr, hknown, hdrawn⟩
  rintro id ⟨hopen, code, hcode, writer, hm, hw⟩
  cases h.listing?.symm.trans hcode
  exact ⟨hopen, _, hdrawn.listing?, writer, mem_append_left _ hm, hw⟩

lemma emitBy_held {dst? : Option ObjectId} {act : ObjectId → Build InstId}
    (hmade : ∀ block, Build.Made 1 (act block))
    (h : ∀ (later : LoweringState) graph order, later.Drawn graph order → st.Still later →
      Build.Ends (act later.current) later.builder (fun _ ir => Build.Extended later.builder order later.current
        (fun instr => later.Fits instr ∧ instr.written? = dst?) ir) fun _ _ => True) :
    Evaluates ok 2 (do let block ← openBlock; let _ ← build (act block) : Lower Unit) st fun _ later =>
    ∀ dst ∈ dst?, later.Held dst := by
  rintro pending ⟨graph, order, hdrawn, hperm⟩
  refine ⟨.inBlock hmade, (openBlock_drawn hdrawn).bind ?_⟩
  rintro id mid ⟨rfl, hopen, hstill, graph', order', hmid, hpend⟩
  refine (append_drawn hmid (h mid graph' order' hmid hstill)).imp ?_
  rintro - later ⟨hstays, hterm, instr, hwritten, hlater⟩
  refine ⟨⟨_, _, hlater, (List.Perm.of_eq hpend).trans hperm⟩, hstill.toStays.trans hstays, fun dst hm => ?_⟩
  have hw : instr.written? = some dst := hwritten.trans hm
  have hin : instr ∈ (graph'.emit [instr]).code := mem_append_right _ (.head _)
  refine ⟨(hlater.assigned.written instr ?_ dst hw).1.isOperand, .inr ⟨hterm.trans hopen, _, hlater.listing?,
    instr, hin, hw⟩⟩
  rw [Graph.instructions_eq]
  exact mem_append_right _ hin

variable {dst src : ObjectId}

lemma emitPure_held (hpure : opcode.code.isPure = true) (hdst : st.Fresh dst)
    (hsrcs : ∀ source ∈ sources, st.Held source) :
    Evaluates ok 2 (emit opcode (dst :: sources)) st fun _ later => later.Held dst := by
  have hemit : Evaluates ok 2 (emit opcode (dst :: sources)) st fun _ later => ∀ id ∈ some dst, later.Held id := by
    refine emitBy_held (fun _ => .emit ..) fun later _ _ hdrawn hstill =>
      emit_extended hdrawn.draws.sound hdrawn.draws.ordered
        (Fits.pure hpure (fun source hm => (hsrcs source hm).stays hstill.toStays) (.inr (hdst.still hstill)))
        fun opd hm => .inl ?_
    rcases mem_cons.mp hm with rfl | hm
    · exact (hdst.still hstill).register.isOperand
    · exact ((hsrcs opd hm).stays hstill.toStays).1
  exact hemit.imp fun _ _ hheld => hheld dst rfl

lemma emitImpure_held (hpure : opcode.code.isPure = false) (hopds : ∀ opd ∈ opds, st.Held opd ∨
    opd ∈ (⟨opcode, opds⟩ : Instruction).targets) : Evaluates ok 2 (emit opcode opds) st fun _ later =>
    ∀ id ∈ none, later.Held id :=
  emitBy_held (fun _ => .emit ..) fun _ _ _ hdrawn hstill =>
    have hopds' := fun opd hm => (hopds opd hm).imp_left (·.stays hstill.toStays)
    emit_extended hdrawn.draws.sound hdrawn.draws.ordered (Fits.impure hpure hopds') fun opd hm =>
    (hopds' opd hm).imp_left (·.1)

lemma emitMove_held (hdst : dst ∈ st.registers ∨ st.Fresh dst) (hsrc : st.Held src) :
    Evaluates ok 2 (emitMove dst src) st fun _ later => ∀ id ∈ some dst, later.Held id := by
  refine emitBy_held (fun _ => .emitMove ..) fun later _ _ hdrawn hstill =>
    emitMove_ends dst src (fun _ => trivial)
    (emits_extended hdrawn.draws.sound hdrawn.draws.ordered fun width => Fits.pure rfl (fun source hm => ?_) ?_)
  · rw [mem_singleton.mp hm]
    exact hsrc.stays hstill.toStays
  · rw [hstill.toStays.registers]
    exact hdst.imp (⟨·, rfl⟩) (·.still hstill)

lemma emitFetch_held (hdst : st.Fresh dst) (hsrc : st.Held src) :
    Evaluates ok 2 (emitFetch dst src) st fun _ later => ∀ id ∈ some dst, later.Held id := by
  refine emitBy_held (fun _ => .emitFetch ..) fun later _ _ hdrawn hstill =>
    emitFetch_ends dst src (fun _ => trivial)
      (emits_extended hdrawn.draws.sound hdrawn.draws.ordered fun width => Fits.pure rfl (fun source hm => ?_)
        (.inr (hdst.still hstill)))
  rw [mem_singleton.mp hm]
  exact hsrc.stays hstill.toStays

lemma emitStore_held (hdst : st.Held dst) (hsrc : st.Held src) :
    Evaluates ok 2 (emitStore dst src) st fun _ later => ∀ id ∈ none, later.Held id := by
  refine emitBy_held (fun _ => .emitStore ..) fun later _ _ hdrawn hstill =>
    emitStore_ends dst src (fun _ => trivial)
    (emits_extended hdrawn.draws.sound hdrawn.draws.ordered fun width => Fits.impure rfl fun opd hm => .inl ?_)
  rcases mem_pair.mp hm with rfl | rfl
  · exact hdst.stays hstill.toStays
  · exact hsrc.stays hstill.toStays

lemma terminate_moves : Moves ok 0 pending pending terminate st Any := .modify (fun _ => rfl) rfl rfl rfl rfl

lemma jump_moves (tgt : ObjectId) : Moves ok 2 pending pending (jump tgt) st Any :=
  (emitImpure_held rfl fun _ hm => .inr hm).next fun _ _ _ _ => terminate_moves

lemma jumpIfOpen_moves (tgt : ObjectId) : Moves ok 2 pending pending (jumpIfOpen tgt) st Any := by
  refine .get (fun _ => rfl) ?_
  split
  · exact jump_moves tgt
  · exact .pure trivial

lemma branch_moves {ifTrue ifFalse : ObjectId} (h : st.Held val) :
    Moves ok 4 pending pending (branch val ifTrue ifFalse) st Any := by
  refine (emitImpure_held rfl fun opd hm => ?_).next fun _ _ _ _ => jump_moves ifFalse
  rcases mem_pair.mp hm with rfl | rfl
  · exact .inl h
  · exact .inr (.head _)

lemma jumpIfOpen_drawn (h : st.Drawn graph order) (tgt : ObjectId) :
    Ends (jumpIfOpen tgt) st (fun _ later => ∃ graph', later.Drawn graph' order ∧
      graph'.pending = graph.pending) fun _ => True := by
  change Ends (if !st.terminated then jump tgt else Pure.pure ()) st _ _
  cases hopen : st.terminated with
  | true => exact ⟨graph, h, rfl⟩
  | false =>
    have hextended : Build.Ends (Build.emit st.current (.scalar .jmp) [tgt]) st.builder
        (fun _ later => Build.Extended st.builder order st.current (fun instr => st.Fits instr ∧
          instr.written? = none) later) fun _ _ => True :=
      Build.emit_extended h.draws.sound h.draws.ordered (Fits.impure rfl fun _ hm => .inr hm) fun _ hm => .inr hm
    have hemit := (append_drawn h hextended).congr (emitBy_run (Build.emit · (.scalar .jmp) [tgt]) hopen)
    refine Ends.bind hemit ?_
    rintro - later ⟨-, -, instr, -, hlater⟩
    exact ⟨_, ⟨hlater.draws, hlater.current, hlater.locals, hlater.assigned⟩, rfl⟩

/-- An operation of the builder that cannot fail. -/
lemma build_drawn {act : Build α} {order' : List ObjectId} (h : st.Drawn graph order)
    (hgives : Build.Gives act st.builder fun _ later =>
      later.Draws { graph with pending := pending } order' st.base ∧ st.builder.Grows later) :
    Ends (build act) st (fun _ later => later.Drawn { graph with pending := pending } order') fun _ => True :=
  .gives hgives fun _ _ hlater => (h.build hlater.1 hlater.2).1

/-- A block that waits is entered or dropped. -/
lemma enter_moves (id : ObjectId) : Moves ok 2 (id :: pending) pending (enter id) st Any := by
  rintro ⟨graph, order, hdrawn, hperm⟩
  have hp : id ∈ graph.pending := hperm.mem_iff.mpr (.head _)
  have herased : (graph.pending.erase id).Perm pending := by
    have herase := hperm.erase id
    rwa [erase_cons_head] at herase
  refine ⟨.enter id, ?_⟩
  unfold enter
  refine (build_drawn hdrawn (hdrawn.draws.moveToEnd hp)).bind ?_
  rintro - moved hmoved
  refine (jumpIfOpen_drawn hmoved id).bind ?_
  rintro - mid ⟨graph', hmid, hpend⟩
  have hp' : id ∈ graph'.pending := hpend ▸ hp
  change Ends (if mid.builder.refs? id = some 0 then _ else _) mid _ _
  split
  · rename_i hrefs
    refine (build_drawn hmid (hmid.draws.deleteBlock hp' hrefs)).bind ?_
    rintro - later hlater
    refine .pure ⟨⟨_, _, hlater, ?_⟩, trivial⟩
    rw [hpend]
    exact herased
  · refine (⟨⟨_, _, drawn_enter hmid hp' ⟨_, rfl⟩, ?_⟩, trivial⟩ :
      LoweringState.Waits pending { mid with current := id, terminated := false } ∧ True)
    rw [Graph.enter, hpend]
    exact herased

lemma pass_moves (id : ObjectId) : Moves ok 2 (id :: pending) pending (pass id) st Any :=
  (enter_moves id).bind fun _ _ _ => .pure trivial

lemma fill_moves (h : ∀ later, Moves ok n pending pending act later Any) :
    Moves ok (n + 2) (id :: pending) pending (fill id act) st Any := by
  refine (enter_moves id).bind fun stays later _ => ?_
  cases stays with
  | true => exact h later
  | false => exact .pure trivial

/-- Nodes of a part that may be missing. -/
def partSize (part? : Option Lowered) : Nat := (part?.map (·.node.size)).getD 0

lemma forSome_moves {part? : Option Lowered} {act : Lowered → Lower Unit}
    (h : ∀ part ∈ part?, Moves ok (n + 24 * part.node.size) pending pending (act part) st Any) :
    Moves ok (n + 24 * partSize part?) pending pending (forSome part? act) st Any := by
  cases part? with
  | none => exact .pure trivial
  | some part => exact h part rfl

lemma compute_held (hpure : code.isPure = true)
    (h : ∀ source ∈ sources, st.Held source) : Evaluates ok 3 (compute code type sources) st Operand :=
  (newRegister_held type).bind fun _ _ hstays hdst =>
    (emitPure_held hpure hdst.2 fun source hm => (h source hm).stays hstays).bind fun _ _ _ hdst => .pure hdst

/-- A list takes what its members take. -/
lemma forM_moves {f : Lowered → Lower Unit} {list : List Lowered}
    (h : ∀ kid ∈ list, ∀ later, Moves ok (24 * kid.node.size) pending pending (f kid) later Any) :
    Moves ok (24 * list.foldr (fun kid n => kid.node.size + n) 0) pending pending (list.forM f) st Any := by
  induction list generalizing st with
  | nil => exact .pure trivial
  | cons a rest ih =>
    rw [List.forM, foldr_cons, Nat.add_comm, Nat.mul_add]
    exact (h a (.head _) st).bind fun _ later _ => ih (forall_mem_cons.mp h).2

/-- Operands that are made one after another are all there at the end. -/
lemma mapM_held {f : Lowered → Lower ObjectId} {list : List Lowered}
    (h : ∀ kid ∈ list, ∀ later, Evaluates ok (24 * kid.node.size) (f kid) later Operand) :
    Evaluates ok (24 * list.foldr (fun kid n => kid.node.size + n) 0) (list.mapM f) st fun ids later =>
    ∀ id ∈ ids, later.Held id := by
  induction list generalizing st with
  | nil =>
    rw [mapM_nil]
    exact .pure (forall_mem_nil _)
  | cons a rest ih =>
    rw [mapM_cons, foldr_cons, Nat.add_comm, Nat.mul_add]
    refine (h a (.head _) st).bind fun id mid _ hid => ?_
    refine ((ih (forall_mem_cons.mp h).2).bind (n := 0) fun ids later hstays hids =>
      .pure fun other hm => ?_).mono (Nat.zero_add _).le
    rcases mem_cons.mp hm with rfl | hm
    · exact hid.stays hstays
    · exact hids other hm

/-! ## Expressions -/

section

variable (tbl : SymbolTable)

lemma memberOffset?_held (sym : SymbolId) (h : ok span) : Evaluates ok 0 (memberOffset? tbl sym span) st Any := by
  unfold memberOffset?
  split
  · exact .pure trivial
  · exact .pure trivial
  · exact .pure trivial
  · exact .unsupported h

lemma loadLocal_held (sym : SymbolId) (h : ok span) :
    Evaluates ok 0 (loadLocal tbl sym span) st fun id later => id ∈ later.registers ∧ later.Held id := by
  refine fun pending => .get (fun _ => rfl) ?_
  cases hlookup : st.locals.lookup sym with
  | none => exact .unsupported h
  | some id =>
    rintro ⟨graph, order, hdrawn, hperm⟩
    obtain ⟨first, rest, heq, -⟩ := lookup_eq_some_iff.mp hlookup
    have hlocal : id ∈ st.registers := mem_map.mpr ⟨(sym, id), heq ▸ mem_append_right _ (.head _), rfl⟩
    exact ⟨.pure id, .pure ⟨⟨graph, order, hdrawn, hperm⟩, .refl _, hlocal, (hdrawn.locals id hlocal).isOperand,
      .inl (.inr hlocal)⟩⟩

lemma load_held (sym : SymbolId) (h : ok span) : Evaluates ok 4 (load tbl sym span) st Operand := by
  refine (memberOffset?_held tbl sym h).bind fun offset? _ _ _ => ?_
  split
  · refine (newRegister_held _).bind fun dst _ _ hdst => (memberOperand_held _).bind fun mem _ _ hmem => ?_
    exact (emitFetch_held (hdst.2.still hmem.1) hmem.2).bind fun _ _ _ hdst => .pure (hdst dst rfl)
  · exact ((loadLocal_held tbl sym h).imp fun _ _ hlocal => hlocal.2).mono (by decide)

lemma store_held (sym : SymbolId) (hspan : ok span) (h : st.Held val) :
    Evaluates ok 3 (store tbl sym span val) st Operand := by
  refine (memberOffset?_held tbl sym hspan).bind fun offset? _ hstays _ => ?_
  have hval := h.stays hstays
  split
  · refine (memberOperand_held _).bind fun mem _ hstays' hmem => ?_
    have hval' := hval.stays hstays'
    exact (emitStore_held hmem.2 hval').bind fun _ _ hstays'' _ => .pure (hval'.stays hstays'')
  · refine (loadLocal_held tbl sym hspan).bind fun dst _ hstays' hdst => ?_
    exact (emitMove_held (.inl hdst.1) (hval.stays hstays')).bind fun _ _ _ hdst => .pure (hdst dst rfl)

lemma immediate_held (val : Value) (type : ValueType) : Evaluates ok 4 (immediate val type) st Operand := by
  refine (newRegister_held _).bind fun dst _ _ hdst => (newImmediate_held _ _).bind fun opd _ _ hopd => ?_
  exact (emitFetch_held (hdst.2.still hopd.1) hopd.2).bind fun _ _ _ hdst => .pure (hdst dst rfl)

lemma trueOperand_held : Evaluates ok 1 trueOperand st Operand :=
  (newImmediate_held _ _).imp fun _ _ hopd => hopd.2

lemma convert_held (source target : ValueType) (h : st.Held val) :
    Evaluates ok 3 (convert val source target) st Operand := by
  unfold convert
  split
  · exact fun _ => .throw (by simp) nofun
  · refine (newRegister_held _).bind fun dst mid hstays hdst => ?_
    exact (emitPure_held rfl hdst.2 (forall_mem_singleton.mpr (h.stays hstays))).bind fun _ _ _ hdst => .pure hdst

lemma copy_held (target : ValueType) (h : st.Held val) : Evaluates ok 3 (copy val target) st Operand :=
  (newRegister_held _).bind fun dst _ hstays hdst =>
    (emitMove_held (.inr hdst.2) (h.stays hstays)).bind fun _ _ _ hdst => .pure (hdst dst rfl)

lemma compareToZero_held (zero : Value) (source target : ValueType) (h : st.Held val) :
    Evaluates ok 6 (compareToZero val zero source target) st Operand := by
  refine (newImmediate_held _ _).bind fun opd _ hstays hopd => (newRegister_held _).bind
    fun dst _ hstays' hdst => ?_
  refine (emitPure_held rfl hdst.2 fun other hm => ?_).bind fun _ _ _ hdst => .pure hdst
  rcases mem_pair.mp hm with rfl | rfl
  · exact h.stays (hstays.trans hstays')
  · exact hopd.2.stays hstays'

lemma cast_held (source target : ValueType) (h : st.Held val) :
    Evaluates ok 6 (cast val source target) st Operand := by
  unfold cast
  split
  · exact .pure h
  · split
    · exact compareToZero_held _ _ _ h
    · exact compareToZero_held _ _ _ h
    · exact compareToZero_held _ _ _ h
    · exact (copy_held _ h).mono (by decide)
    · exact (copy_held _ h).bind fun _ _ _ hcopy => convert_held _ _ hcopy
    · exact (copy_held _ h).bind fun _ _ _ hcopy => convert_held _ _ hcopy
    · exact (convert_held _ _ h).mono (by decide)

lemma computeTwo_held (hpure : code.isPure = true) (hl : st.Held left) (hr : st.Held right) :
    Evaluates ok 3 (compute code type [left, right]) st Operand := by
  refine compute_held hpure fun source hm => ?_
  rcases mem_pair.mp hm with rfl | rfl
  · exact hl
  · exact hr

lemma step_held (hlabel : ok lbl.span) (op : UnaryOp) {opd : Node} (hopd : ok opd.span) :
    Evaluates ok 24 (step tbl lbl op opd) st Operand := by
  unfold step
  dsimp only
  split
  · refine (newImmediate_held _ _).bind fun one _ _ hone => (load_held tbl _ hopd).bind
      fun current _ hstays hcur =>
      (memberOffset?_held tbl _ hopd).bind fun offset? mid hstays' _ => ?_
    have hone' := hone.2.stays (hstays.trans hstays')
    have hcur' := hcur.stays hstays'
    have hrest (later : LoweringState) (sym : SymbolId) (code : InstCode) (old : ObjectId)
      (hpure : code.isPure = true) (hlater : mid.Stays later) (hold : later.Held old) : Evaluates ok 16 (do
          let updated ← compute code lbl.type [current, one]
          let updated ← store tbl sym opd.span updated
          return if op.isPreStep then updated else old) later Operand := by
      refine (computeTwo_held hpure (hcur'.stays hlater) (hone'.stays hlater)).bind
        fun updated _ hstays hupdated => ?_
      refine (store_held tbl sym hopd hupdated).bind fun stored _ hstays' hsto => .pure ?_
      split
      · exact hsto
      · exact hold.stays (hstays.trans hstays')
    have hpure : (if op.isIncrement then arithmeticCode lbl.type.base .add .add
        else arithmeticCode lbl.type.base .sub .sub : InstCode).isPure = true := by
      split <;> exact isPure_arithmeticCode ..
    split
    · exact (hrest _ _ _ _ hpure (.refl _) hcur').mono (by decide)
    · exact (copy_held _ hcur').bind fun old later hstays hold => hrest later _ _ _ hpure hstays hold
  · exact .unsupported hlabel
  · exact .unsupported hlabel

lemma compareBools_held (op : BinaryOp) (type : ValueType) (hl : st.Held left) (hr : st.Held right) :
    Evaluates ok 7 (compareBools op type left right) st Operand := by
  refine (computeTwo_held rfl hl hr).bind fun differs _ _ hdiffers => ?_
  split
  · exact .pure hdiffers
  · exact trueOperand_held.bind fun one _ hstays hone => computeTwo_held rfl (hdiffers.stays hstays) hone

end

/-! ## Trees -/

/-- What a child stands for keeps the invariant, names spans of its nodes and
stores 24 entries for each of them. -/
structure MovingParts (allowed : Span → Prop) (child : Lowered) : Prop where
  node : child.node.Spanned allowed
  expression : ∀ state, Evaluates allowed (24 * child.node.size) child.expression state Operand
  statement : ∀ pending state, Moves allowed (24 * child.node.size) pending pending child.statement state Any
  arm : ∀ cond? body, child.arm? = some (cond?, body) → ∃ m n, m + n + 24 ≤ 24 * child.node.size ∧
    (∀ cond ∈ cond?, ∀ state, Evaluates allowed m cond state Operand) ∧ ∀ pending state,
    Moves allowed n pending pending body state Any

/-- Nodes below a form. -/
def childSizes (form : Form Lowered) : Nat := form.sum fun child => child.node.size

section

variable (tbl : SymbolTable) (hlabel : ok lbl.span)

/-- An instruction on two values. -/
lemma twoOperands_held (hl : MovingParts ok lhs) (hr : MovingParts ok rhs)
    {f : ObjectId → ObjectId → Lower ObjectId} (hf : ∀ left right later, later.Held left → later.Held right →
      Evaluates ok 24 (f left right) later Operand) :
    Evaluates ok (24 + 24 * rhs.node.size + 24 * lhs.node.size)
      (do let left ← lhs.expression; let right ← rhs.expression; f left right) st Operand :=
  (hl.expression _).bind fun left _ _ hleft => (hr.expression _).bind fun right later hstays hright =>
    hf left right later (hleft.stays hstays) hright

lemma declareLocal_moves (sym : SymbolId) (h : st.Fresh dst) : Moves ok 0 pending pending
    (modify fun st => { st with locals := (sym, dst) :: st.locals }) st fun _ later => dst ∈ later.registers := by
  rintro ⟨graph, order, hdrawn, hperm⟩
  refine ⟨.update rfl fun _ => rfl,
    (⟨⟨graph, order, ⟨hdrawn.draws, hdrawn.current, fun id hm => ?_, ?_⟩, hperm⟩, Mem.head _⟩ :
      LoweringState.Waits pending { st with locals := (sym, dst) :: st.locals } ∧ dst ∈ dst :: st.registers)⟩
  · rcases mem_cons.mp hm with rfl | hm
    · exact h.register
    · exact hdrawn.locals id hm
  · refine hdrawn.assigned.declare h.temporary fun instr hm => ?_
    obtain ⟨inst, hi⟩ := hdrawn.draws.live_iff.mpr hm
    exact h.unwritten inst instr hi

lemma declaration_moves (sym : SymbolId) {ini? : Option Lowered} (h : ∀ val ∈ ini?, MovingParts ok val) :
    Moves ok (2 + 24 * partSize ini? + 1) pending pending (declaration tbl sym ini?) st Any :=
  (newRegister_held _).next fun _ _ _ hdst => (declareLocal_moves sym hdst.2).bind fun _ _ hlocal =>
    forSome_moves fun val hm => ((h val hm).expression _).next fun _ _ hstays hval =>
      (emitMove_held (.inl (hstays.registers ▸ hlocal)) hval).moves

lemma arm_moves (join : ObjectId) {kid : Lowered} (h : MovingParts ok kid) :
    Moves ok (24 * kid.node.size) pending pending (arm join kid) st Any := by
  unfold arm
  split
  · exact .unsupported h.node.span
  · rename_i body heq
    obtain ⟨m, n, hle, -, hbody⟩ := h.arm none body heq
    exact (hbody _ _).mono (by omega)
  · rename_i cond body heq
    obtain ⟨m, n, hle, hcond, hbody⟩ := h.arm (some cond) body heq
    refine Moves.mono ((hcond cond rfl _).next (n := n + 12) fun val _ _ hval => .newBlock fun taken _ hstays =>
      .newBlock fun next _ hstays' => (branch_moves (hval.stays (hstays.trans hstays'))).bind fun _ _ _ => ?_)
        (by omega)
    refine (((fill_moves fun _ => hbody _ _).perm (List.Perm.swap ..)).bind (n := 4) fun _ _ _ => ?_).mono
      (by omega)
    exact (jumpIfOpen_moves join).bind fun _ _ _ => pass_moves next

lemma branchStatement_moves {arms : List Lowered} (h : ∀ kid ∈ arms, MovingParts ok kid) :
    Moves ok (2 + 24 * arms.foldr (fun kid n => kid.node.size + n) 0 + 1) pending pending
    (branchStatement arms) st Any :=
  .newBlock fun join _ _ => (forM_moves fun kid hm _ => arm_moves join (h kid hm)).bind fun _ _ _ =>
    pass_moves join

/-! ## Loops -/

lemma Moves.newBlockIf {part? : Option α} {f : Option ObjectId → Lower β}
    (hf : ∀ id? later, id?.isSome = part?.isSome → Moves ok n (id?.toList ++ pre) after (f id?) later good) :
    Moves ok (n + 1) pre after (newBlockIf part? >>= f) st good := by
  cases part? with
  | none => exact (hf none st rfl).mono (Nat.le_succ n)
  | some part =>
    have hmade : Moves ok (n + 1) pre after (build Build.newBlock >>= fun id => f (some id)) st good :=
      .newBlock fun id later _ => hf (some id) later rfl
    unfold Lower.newBlockIf
    rwa [bind_assoc]

lemma Moves.newLoopBlocks {f : LoopBlocks → Lower β}
    (hf : ∀ (blocks : LoopBlocks) later, blocks.test?.isSome = cond?.isSome → blocks.step?.isSome = step?.isSome →
      Moves ok n (blocks.exit :: (blocks.step?.toList ++ blocks.entry :: (blocks.test?.toList ++ pre))) after
      (f blocks) later good) :
    Moves ok (n + 4) pre after (newLoopBlocks cond? step? >>= f) st good := by
  unfold Lower.newLoopBlocks
  simp only [bind_assoc, pure_bind]
  exact .newBlockIf fun test? _ htest => .newBlock fun entry _ _ => .newBlockIf fun step? _ hstep =>
    .newBlock fun exit later _ =>
    hf ⟨test?, entry, step?, exit⟩ later htest hstep

lemma testCondition_moves {cond : Lowered} (h : MovingParts ok cond) (blocks : LoopBlocks) :
    Moves ok (4 + 24 * cond.node.size) pending pending (testCondition cond blocks) st Any :=
  (h.expression _).next fun _ _ _ hval => branch_moves hval

/-- The block of the test is entered where the test is. -/
lemma testFirst_moves (kind : LoopKind)
    (h : ∀ cond ∈ cond?, MovingParts ok cond) (htest : blocks.test?.isSome = cond?.isSome) :
    Moves ok (if kind.isPretest then 4 + 24 * partSize cond? + 2 else 0)
      ((if kind.isPretest then blocks.test?.toList else []) ++ pending) pending (testFirst kind cond? blocks)
      st Any := by
  obtain ⟨test?, entry, step?, exit⟩ := blocks
  unfold testFirst
  cases kind.isPretest with
  | false => exact .pure trivial
  | true =>
    rcases parts_cases htest with ⟨rfl, rfl⟩ | ⟨test, cond, rfl, rfl⟩
    · exact .pure trivial
    · exact (pass_moves test).bind fun _ _ _ => testCondition_moves (h cond rfl) _

lemma stepRound_moves (h : ∀ step ∈ step?, MovingParts ok step) (hstep : blocks.step?.isSome = step?.isSome) :
    Moves ok (0 + 24 * partSize step? + 2) (blocks.step?.toList ++ pending) pending (stepRound step? blocks)
    st Any := by
  obtain ⟨test?, entry, block?, exit⟩ := blocks
  unfold stepRound
  rcases parts_cases hstep with ⟨rfl, rfl⟩ | ⟨block, step, rfl, rfl⟩
  · exact .pure trivial
  · exact fill_moves fun _ => ((h step rfl).expression _).next fun _ _ _ _ => .pure trivial

lemma endRound_moves (kind : LoopKind)
    (h : ∀ cond ∈ cond?, MovingParts ok cond) (htest : blocks.test?.isSome = cond?.isSome) :
    Moves ok (if kind.isPretest then 2 else 4 + 24 * partSize cond? + 2)
      ((if kind.isPretest then [] else blocks.test?.toList) ++ pending) pending (endRound kind cond? blocks)
      st Any := by
  obtain ⟨test?, entry, step?, exit⟩ := blocks
  unfold endRound
  cases kind.isPretest with
  | true => exact jumpIfOpen_moves _
  | false =>
    rcases parts_cases htest with ⟨rfl, rfl⟩ | ⟨test, cond, rfl, rfl⟩
    · exact (jumpIfOpen_moves _).mono (by decide)
    · exact fill_moves fun _ => testCondition_moves (h cond rfl) _

lemma inLoop_moves (blocks : LoopBlocks) (h : ∀ later, Moves ok n pre after act later Any) :
    Moves ok n pre after (inLoop blocks act) st Any := by
  have hset : Moves ok 0 pre pre (modify fun st => { st with loops := blocks.targets :: st.loops }) st Any :=
    .modify (fun _ => rfl) rfl rfl rfl rfl
  exact Moves.mono (hset.bind fun _ later _ => (h later).bind fun _ _ _ =>
    .modify (fun _ => rfl) rfl rfl rfl rfl) (Nat.zero_add n).le

lemma loop_moves (kind : LoopKind) {init? : Option Lowered} {body : Lowered}
    (hinit : ∀ init ∈ init?, MovingParts ok init) (hcond : ∀ cond ∈ cond?, MovingParts ok cond)
    (hstep : ∀ step ∈ step?, MovingParts ok step) (hbody : MovingParts ok body) :
    Moves ok (24 * (partSize init? + partSize cond? + partSize step? + body.node.size) + 24) pending pending
      (loop kind init? cond? step? body) st Any := by
  refine Moves.mono ((forSome_moves (n := 0) fun init hm => ((hinit init hm).statement _ _).mono
    (Nat.zero_add _).ge).bind fun _ _ _ =>
    .newLoopBlocks (n := 24 * (partSize cond? + partSize step? + body.node.size) + 14)
      fun blocks _ htest hsteps => ?_) (by omega)
  -- The blocks are entered in the order test, body, step, test, exit.
  have hperm : (blocks.exit :: (blocks.step?.toList ++ blocks.entry :: (blocks.test?.toList ++ pending))).Perm
      ((if kind.isPretest then blocks.test?.toList else []) ++ blocks.entry :: (blocks.step?.toList ++
        ((if kind.isPretest then [] else blocks.test?.toList) ++ blocks.exit :: pending))) := by
    rw [perm_iff_count]
    intro id
    cases kind.isPretest <;> simp [count_cons] <;> omega
  refine Moves.perm (Moves.mono ((testFirst_moves kind hcond htest).bind fun _ _ _ => (inLoop_moves blocks fun _ =>
    (fill_moves fun _ => hbody.statement _ _).bind fun _ _ _ => stepRound_moves hstep hsteps).bind fun _ _ _ =>
      (endRound_moves kind hcond htest).bind fun _ _ _ => pass_moves blocks.exit) ?_) hperm
  cases kind.isPretest <;> simp only [if_true, if_false, Bool.false_eq_true] <;> omega

include hlabel

lemma unary_held (op : UnaryOp) {opd : Lowered} (h : MovingParts ok opd) :
    Evaluates ok (24 + 24 * opd.node.size) (unary tbl lbl op opd) st Operand := by
  unfold unary
  split
  · exact (step_held tbl hlabel op h.node.span).mono (Nat.le_add_right ..)
  · refine (h.expression _).bind fun val _ _ hval => ?_
    split
    · exact (compute_held (isPure_arithmeticCode ..) (forall_mem_singleton.mpr hval)).mono (by decide)
    · exact (compute_held rfl (forall_mem_singleton.mpr hval)).mono (by decide)
    · exact (trueOperand_held.bind fun one _ hstays hone => computeTwo_held rfl (hval.stays hstays) hone).mono
        (by decide)
    · exact (cast_held _ _ hval).mono (by decide)

lemma comparison_held (op : BinaryOp) (hl : MovingParts ok lhs) (hr : MovingParts ok rhs) :
    Evaluates ok (24 + 24 * rhs.node.size + 24 * lhs.node.size) (comparison lbl op lhs rhs) st Operand := by
  unfold comparison
  dsimp only
  split
  · exact .unsupported hlabel
  · refine twoOperands_held hl hr fun left right later hleft hright => ?_
    split
    · exact (compareBools_held _ _ hleft hright).mono (by decide)
    · refine Evaluates.mono (m := 3) ?_ (by decide)
      split
      · exact computeTwo_held rfl hleft hright
      · exact computeTwo_held rfl hleft hright
      · exact computeTwo_held rfl hleft hright
      · exact computeTwo_held rfl hright hleft
      · exact computeTwo_held rfl hright hleft
      · exact computeTwo_held rfl hleft hright

lemma binary_held (op : BinaryOp) (hl : MovingParts ok lhs) (hr : MovingParts ok rhs) :
    Evaluates ok (24 + 24 * rhs.node.size + 24 * lhs.node.size) (binary tbl lbl op lhs rhs) st Operand := by
  unfold binary
  split
  · unfold assign
    split
    · exact ((hr.expression _).bind fun val _ _ hval => store_held tbl _ hl.node.span hval).mono (by omega)
    · exact .unsupported hl.node.span
  · exact comparison_held hlabel op hl hr
  · unfold logical
    split
    · exact .unsupported hr.node.span
    · exact twoOperands_held hl hr fun _ _ _ hleft hright => (computeTwo_held rfl hleft hright).mono (by decide)
  · exact twoOperands_held hl hr fun _ _ _ hleft hright =>
      (computeTwo_held (isPure_operationCode ..) hleft hright).mono (by decide)

lemma call_held (callee : SymbolId) {args : List Lowered} (h : ∀ kid ∈ args, MovingParts ok kid) :
    Evaluates ok (24 + 24 * args.foldr (fun kid n => kid.node.size + n) 0)
    (call tbl lbl callee args) st Operand := by
  unfold call
  dsimp only
  split
  · exact .unsupported hlabel
  · rename_i code hcode
    have hpure : code.isPure = true := by
      split at hcode
      · exact isPure_of_intrinsicCode? hcode
      · cases hcode
    exact (mapM_held fun kid hm _ => (h kid hm).expression _).bind fun _ _ _ hsrcs =>
      (compute_held hpure hsrcs).mono (by decide)

lemma expression_held (h : ∀ kid ∈ form.children, MovingParts ok kid) :
    Evaluates ok (24 + 24 * childSizes form) (expression tbl lbl form) st Operand := by
  cases form with
  | immediate val => exact (immediate_held _ _).mono (by omega)
  | var sym => exact (load_held _ _ hlabel).mono (by omega)
  | unary op opd => exact unary_held tbl hlabel op (h opd (.head _))
  | binary op lhs rhs =>
    refine (binary_held tbl hlabel op (h lhs (.head _)) (h rhs (.tail _ (.head _)))).mono ?_
    change _ ≤ 24 + 24 * (lhs.node.size + (rhs.node.size + 0))
    omega
  | call callee args => exact call_held tbl hlabel callee h
  | _ => exact .unsupported hlabel

/-! ## Statements -/

lemma storeResult_moves {val : Lowered} (h : MovingParts ok val) :
    Moves ok (3 + 24 * val.node.size) pending pending (storeResult tbl lbl val) st Any := by
  unfold storeResult
  split
  · refine .throw nofun fun _ hm => ?_
    cases hm
    exact hlabel
  · exact (h.expression _).next fun _ _ _ hval => (memberOperand_held _).next fun _ _ hstays hmem =>
      (emitStore_held hmem.2 (hval.stays hstays)).moves

omit hlabel in
lemma ret_moves : Moves ok 2 pending pending (emit (.scalar .ret) []) st Any :=
  (emitImpure_held rfl (forall_mem_nil _)).moves

lemma returnStatement_moves {val? : Option Lowered} (h : ∀ val ∈ val?, MovingParts ok val) :
    Moves ok (2 + (3 + 24 * partSize val?)) pending pending (returnStatement tbl lbl val?) st Any :=
  (forSome_moves fun val hm => storeResult_moves tbl hlabel (h val hm)).bind fun _ _ _ =>
    ret_moves.bind fun _ _ _ => terminate_moves

lemma jumpStatement_moves (tgt : LoopTargets → ObjectId) :
    Moves ok 2 pending pending (jumpStatement lbl tgt) st Any := by
  refine .get (fun _ => rfl) ?_
  split
  · exact .unsupported hlabel
  · exact jump_moves _

lemma statement_moves (h : ∀ kid ∈ form.children, MovingParts ok kid) :
    Moves ok (24 + 24 * childSizes form) pending pending (statement tbl lbl form) st Any := by
  have hpart (part? : Option Lowered) : part?.toList.foldr (fun kid n => kid.node.size + n) 0 =
      partSize part? := by
    cases part? <;> rfl
  cases form with
  | block stmts => exact (forM_moves fun kid hm _ => (h kid hm).statement _ _).mono (Nat.le_add_left ..)
  | branch arms =>
    refine Moves.mono (branchStatement_moves fun kid hm => h kid hm) ?_
    change _ ≤ 24 + 24 * arms.foldr (fun kid n => kid.node.size + n) 0
    omega
  | loop kind init? cond? step? body =>
    refine (loop_moves kind (fun part hm => h part (by simp [children, Option.mem_def.mp hm]))
      (fun part hm => h part (by simp [children, Option.mem_def.mp hm]))
      (fun part hm => h part (by simp [children, Option.mem_def.mp hm])) (h body (by simp [children]))).mono ?_
    have hsizes : childSizes (.loop kind init? cond? step? body) =
        partSize init? + partSize cond? + partSize step? + body.node.size := by
      cases init? <;> cases cond? <;> cases step? <;> simp [childSizes, Form.sum, children, partSize] <;> omega
    rw [hsizes]
    omega
  | breakLoop | continueLoop => exact (jumpStatement_moves hlabel _).mono (by omega)
  | returnValue value? =>
    refine (returnStatement_moves tbl hlabel fun part hm =>
      h part (by simp [children, Option.mem_def.mp hm])).mono ?_
    rw [← hpart]
    change _ ≤ 24 + 24 * value?.toList.foldr (fun kid n => kid.node.size + n) 0
    omega
  | declare sym value? =>
    refine (declaration_moves tbl sym fun part hm => h part (by simp [children, Option.mem_def.mp hm])).mono ?_
    rw [← hpart]
    change _ ≤ 24 + 24 * value?.toList.foldr (fun kid n => kid.node.size + n) 0
    omega
  | program _ | function _ _ _ | arm _ _ => exact .unsupported hlabel
  | _ => exact ((expression_held tbl hlabel h).next (n := 0) fun _ _ _ _ => .pure trivial).mono (Nat.zero_add _).le

end

lemma movingParts_lowered (tbl : SymbolTable) {node : Node} (h : node.Spanned ok) :
    MovingParts ok (node.lowered tbl) := by
  induction node with
  | mk lbl form ih =>
    have hkids : ∀ kid ∈ (form.map (Node.lowered tbl)).children, MovingParts ok kid := by
      intro kid hm
      obtain ⟨inner, hi, rfl⟩ := mem_children_map.mp hm
      exact ih inner hi (h.child hi)
    have hsize : 24 * (Node.mk lbl form).size = 24 + 24 * childSizes (form.map (Node.lowered tbl)) := by
      rw [childSizes, sum_map, Node.size_mk, Nat.mul_add]
      simp only [Node.node_lowered]
    refine ⟨?_, fun _ => ?_, fun _ _ => ?_, fun cond? body heq => ?_⟩
    · rwa [Node.node_lowered]
    · rw [Node.expression_lowered, Node.node_lowered, hsize]
      exact expression_held tbl h.span hkids
    · rw [Node.statement_lowered, Node.node_lowered, hsize]
      exact statement_moves tbl h.span hkids
    · rw [Node.arm?_lowered] at heq
      rw [Node.node_lowered, hsize]
      cases form with
      | arm cond?' body' =>
        obtain ⟨rfl, rfl⟩ := Prod.mk.inj (Option.some.inj heq)
        have hbody := (ih body' (by simp [children]) (h.child (by simp [children]))).statement
        rw [Node.node_lowered] at hbody
        refine ⟨24 * partSize (cond?'.map (Node.lowered tbl)), 24 * body'.size, ?_, fun act hm => ?_, hbody⟩
        · have hsizes : childSizes ((Form.arm cond?' body').map (Node.lowered tbl)) =
              partSize (cond?'.map (Node.lowered tbl)) + body'.size := by
            cases cond?' <;> simp [childSizes, Form.sum, Form.map, children, partSize]
          rw [hsizes]
          omega
        · obtain ⟨cond, rfl, rfl⟩ := Option.map_eq_some_iff.mp hm
          exact (ih cond (by simp [children]) (h.child (by simp [children]))).expression
      | _ => cases heq

lemma entryBody_moves (tbl : SymbolTable) {body : Node} (h : body.Spanned ok) :
    Moves ok (2 + 24 * body.size) pending pending (entryBody tbl body) st Any := by
  have hbody := (movingParts_lowered tbl h).statement
  rw [Node.node_lowered] at hbody
  refine (hbody _ _).bind fun _ _ _ => .get (fun _ => rfl) ?_
  split
  · exact ret_moves
  · exact .pure trivial

end Lower

/-! ## Programs -/

namespace Builder

variable {later : Builder} {lim? : Option Nat}

lemma create_one_cases (lim? : Option Nat) : match create 1 lim? with
    | .ok ir => ir.Sound [] [] [] [] ∧ ir.Ordered [] ∧ ∃ base reg made,
        (empty lim?).Adds base (.register reg) made ∧ ir = { made with dataSlots := made.dataSlots ++ [some base] }
    | .error error => error = .outOfMemory := by
  obtain ⟨hs, order, horder⟩ := steady_empty lim?
  obtain rfl : order = [] := by
    refine eq_nil_iff_forall_not_mem.mpr fun id hm => ?_
    obtain ⟨block, hb⟩ := horder.block hm
    cases hb
  have hmade : Build.Ends ((replicate 1 ()).forM fun _ => do
      let id ← allocRegister .general pointerWidth
      retain id
      modify fun ir => { ir with dataSlots := ir.dataSlots ++ [some id] }) (empty lim?)
        (fun _ ir => ir.Sound [] [] [] [] ∧ ir.Ordered [] ∧ ∃ base reg made,
          (empty lim?).Adds base (.register reg) made ∧
          ir = { made with dataSlots := made.dataSlots ++ [some base] })
            fun error _ => error = .outOfMemory := by
    refine .bind (.bind ((allocRegister_ends (fun hg => absurd rfl hg) hs horder .general pointerWidth).mono
      (fun _ _ hgood => hgood) fun _ _ hbad => hbad.1) ?_) fun _ _ hgood => .of_gives (.pure hgood)
    rintro id mid ⟨hs', horder', hadds⟩
    obtain ⟨obj, ho, -⟩ := object?_of_shape? hadds.self
    refine .of_gives (.bind (retain_gives hs' ho) ?_)
    rintro - made ⟨hs'', hkept, hsame⟩
    exact .of_run rfl ⟨hs''.addSlot, (hkept.ordered horder').congr (fun _ => rfl) rfl rfl, id, _, made,
      hadds.trans hsame, rfl⟩
  unfold create
  rw [if_neg (by decide)]
  unfold Build.Ends at hmade
  dsimp only
  generalize ((replicate 1 ()).forM _ : Build Unit).run.run (empty lim?) = made at hmade ⊢
  obtain ⟨_ | _, _⟩ := made <;> exact hmade

lemma initEntry_draws (h : create 1 lim? = .ok ir) : Build.Ends initEntry ir
    (fun entry later => ∃ base, later.dataSlots = [some base] ∧ later.Draws ⟨[], entry, [], []⟩ [entry] base)
      ir.OutOfRoom := by
  have hcases := create_one_cases lim?
  rw [h] at hcases
  obtain ⟨hs, horder, base, reg, made, hadds, rfl⟩ := hcases
  refine (initEntry_ends (fun hg => absurd rfl hg) hs horder).mono ?_ fun _ _ hbad => hbad.outOfRoom hadds.hadEntry
  rintro entry _ ⟨hs', horder', mid, hadds', rfl⟩
  have hslots : mid.dataSlots = [some base] := by
    rw [hadds'.slots]
    change made.dataSlots ++ [some base] = _
    rw [hadds.slots]
    rfl
  have hbase : mid.shape? base = some (.register reg) := hadds'.shape?_of_some hadds.self
  refine ⟨base, hslots, hs', horder', .refl _, .refl _, ?_, forall_mem_nil _, ?_, rfl, hslots,
    ⟨reg, hbase⟩, ?_⟩
  · intro block hm
    obtain rfl := mem_singleton.mp hm
    exact hadds'.listing?_self rfl
  · intro block hm instr hi
    obtain rfl := mem_singleton.mp hm
    exact absurd hi not_mem_nil
  · intro pair hm
    have himms : mid.immediates = [] := hadds'.immediates.trans hadds.immediates
    change pair ∈ mid.immediates at hm
    rw [himms] at hm
    exact absurd hm not_mem_nil

/-- Nothing was taken out of a graph. -/
lemma Draws.compact (h : ir.Draws graph order base) : ir.Compact := by
  intro id block hb
  have hlisting : ∃ code, ir.listing? id = some code := by
    rcases mem_append.mp (h.perm.mem_iff.mp (h.ordered.complete id block hb)) with hname | hpend
    · obtain ⟨filled, hfilled, rfl⟩ := mem_map.mp hname
      exact ⟨_, h.blocks filled hfilled⟩
    · exact ⟨_, h.pending id hpend⟩
  obtain ⟨code, hcode⟩ := hlisting
  rw [listing?, hb, Option.bind_some] at hcode
  exact not_mem_of_resolve? hcode

/-- A builder that holds a graph can be pruned. -/
lemma Draws.prunable (h : ir.Draws graph order base) : ir.Prunable [] [] order := by
  refine ⟨h.sound, h.ordered, fun id block hb _ => h.compact id block hb, fun inst instr hi hpure id hm => ?_⟩
  cases hb : ir.block? id with
  | none => rfl
  | some block =>
    obtain ⟨filled, hfilled, hcode⟩ := h.exists_code hi
    have htgt := h.operands filled hfilled instr hcode id hm _ (shape?_of_block? hb)
    rw [Instruction.targets_of_pure hpure] at htgt
    cases htgt

end Builder

/-- Lowering starts with an empty entry block. -/
lemma LoweringState.start_cases (lim? : Option Nat) : start lim? = .error .outOfMemory ∨
    ∃ started entry base, start lim? = .ok ⟨started, base, entry, false, [], []⟩ ∧
    started.Draws ⟨[], entry, [], []⟩ [entry] base := by
  have hmade := Builder.create_one_cases lim?
  unfold start
  cases hcreate : Builder.create 1 lim? with
  | error error =>
    rw [hcreate] at hmade
    obtain rfl := hmade
    exact .inl rfl
  | ok created =>
    have hentry := Builder.initEntry_draws hcreate
    unfold Build.Ends at hentry
    dsimp only
    rcases hrun : initEntry.run.run created with ⟨error | entry, started⟩ <;> rw [hrun] at hentry
    · obtain rfl := hentry.1
      exact .inl rfl
    · obtain ⟨base, hslots, hdraws⟩ := hentry
      have hslot : started.dataSlot? 0 = some base := by
        rw [Builder.dataSlot?, hslots]
        rfl
      dsimp only
      rw [hslot]
      exact .inr ⟨started, entry, base, rfl, hdraws⟩

lemma LoweringState.waits_of_start (h : start lim? = .ok st) : st.Waits [] := by
  rcases start_cases lim? with hstart | ⟨started, entry, base, hstart, hdraws⟩ <;> rw [hstart] at h <;> cases h
  refine ⟨⟨[], entry, [], []⟩, [entry], ⟨hdraws, rfl, forall_mem_nil _, nodup_singleton _, fun block hm => ?_,
    forall_mem_nil _, fun _ _ => Nat.zero_le _⟩, .refl _⟩
  rw [mem_singleton.mp hm]
  exact .nil

namespace Program

/-- Lowering leaves a graph in which no block waits. -/
lemma drawn_of_lowering (h : prog.lowering lim? = .ok st) :
    ∃ graph order, st.Drawn graph order ∧ graph.pending = [] := by
  rcases prog.lowering_cases with ⟨-, hrun⟩ | ⟨_, _, _, _, -, hrun⟩ | ⟨fn, body, -, hrun⟩ <;> rw [hrun] at h
  · cases h
  · cases h
  cases hstart : LoweringState.start lim? <;> rw [hstart] at h
  · cases h
  obtain ⟨-, ⟨graph, order, hdrawn, hperm⟩, -⟩ :=
    (Lower.entryBody_moves prog.symbols body.spanned_true (LoweringState.waits_of_start hstart)).2.last.1 st h
  exact ⟨graph, order, hdrawn, hperm.eq_nil⟩

/-- Code of a program that was lowered is a graph. -/
lemma draws_of_lower (h : prog.lower lim? = .ok ir) :
    ∃ graph order base, ir.Draws graph order base ∧ graph.pending = [] := by
  obtain ⟨st, hlow, rfl⟩ := lowering_of_lower h
  obtain ⟨graph, order, hdrawn, hpend⟩ := drawn_of_lowering hlow
  exact ⟨graph, order, st.base, hdrawn.draws, hpend⟩

/-- Pruning what a program was lowered to succeeds, and the runs show the same
instructions with the same operands and come to the same end. -/
theorem prune_keeps_runs {program : Program} {limit? : Option Nat} {builder : Builder}
    (h : program.lower limit? = .ok builder) : ∃ removed pruned, builder.prune = .ok (removed, pruned) ∧
      ∀ (ω μ : Type) (semantics : Semantics ω μ) (registers : ObjectId → ω) (memory : μ),
        (∀ events, builder.Shows semantics (builder.start registers memory) events ↔
          pruned.Shows semantics (pruned.start registers memory) events) ∧
        (∀ final, builder.Returns semantics (builder.start registers memory) final ↔
          pruned.Returns semantics (pruned.start registers memory) final) ∧
        (builder.RunsForever semantics (builder.start registers memory) ↔
          pruned.RunsForever semantics (pruned.start registers memory)) := by
  obtain ⟨graph, order, base, hdraws, -⟩ := draws_of_lower h
  obtain ⟨removed, pruned, hprune, -, hreduces, -⟩ := hdraws.prunable.prune
  refine ⟨removed, pruned, hprune, fun ω μ semantics registers memory => ?_⟩
  obtain ⟨hcovered, hcovers⟩ := hreduces.runs ω μ semantics registers memory
  exact ⟨fun _ => ⟨hcovered.shows, hcovers.shows⟩, fun _ => ⟨hcovered.returns, hcovers.returns⟩,
    hcovers.runsForever, hcovered.runsForever⟩

/-- A local that is set and not used. -/
def unusedLocal : Source :=
  ⟨.memory, ("int main() \x7b int x = g * 2; while (x < g) x += 3; int y = x + 1; return g; \x7d").toList⟩

theorem prune_keeps_runs_unusedLocal : ∃ program builder removed pruned, parse unusedLocal .twoWords =
    .ok program ∧ program.lower none = .ok builder ∧ builder.prune = .ok (removed, pruned) ∧ removed = 3 ∧
      ∀ (registers : ObjectId → Int) (memory final : Int) (semantics : Semantics Int Int),
        builder.Returns semantics (builder.start registers memory) final ↔
          pruned.Returns semantics (pruned.start registers memory) final := by
  have hrun : ((parse unusedLocal .twoWords).toOption.bind fun program => (program.lower none).toOption.bind
    fun builder =>
      builder.prune.toOption.map Prod.fst) = some 3 := by decide +kernel
  cases hparse : parse unusedLocal .twoWords with
  | error error =>
    rw [hparse] at hrun
    cases hrun
  | ok program =>
    rw [hparse] at hrun
    cases hlower : program.lower none with
    | error error =>
      change (program.lower none).toOption.bind _ = _ at hrun
      rw [hlower] at hrun
      cases hrun
    | ok builder =>
      obtain ⟨removed, pruned, hprune, hsame⟩ := prune_keeps_runs hlower
      refine ⟨program, builder, removed, pruned, rfl, hlower, hprune, ?_, fun registers memory final semantics =>
        (hsame Int Int semantics registers memory).2.1 final⟩
      change (program.lower none).toOption.bind _ = _ at hrun
      rw [hlower] at hrun
      change builder.prune.toOption.map _ = _ at hrun
      rw [hprune] at hrun
      exact Option.some.inj hrun

end Program

end Shading
