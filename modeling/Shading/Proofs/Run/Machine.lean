import Mathlib.Logic.Function.Basic
import Shading.Ir.Builder

/-!
# Running code

A machine has registers and a memory.  It runs the instructions of a block in
order until a jump leads to another block or `ret` ends the run.  What the
instructions compute is left open (`Semantics`): an instruction that is not a
store or a jump writes its first operand, as some function of its operands and
the memory says.

* `Builder.Reaches`: some number of steps leads from one state to another.
* `Builder.Returns`, `Builder.RunsForever`: the two ways a run can go.  A run
  that is stuck does neither.
-/

namespace Shading

/-- What an instruction sees of an operand. -/
inductive Reading (ω : Type) where
  | value (content : ω)
  | memory (base : ω) (index? : Option ω) (offset : Int32)
  | absent

/-- What instructions compute, on register contents `ω` and memories `μ`. -/
structure Semantics (ω μ : Type) where
  literal : ImmediateOperand → ω
  compute : Opcode → List (Reading ω) → μ → ω
  store : Opcode → List (Reading ω) → μ → μ
  isTrue : ω → Bool

/-- A machine on its way: the instructions up to the end of the block, the
registers and the memory. -/
structure Machine (ω μ : Type) where
  rest : List InstId
  registers : ObjectId → ω
  memory : μ

/-- What a run has come to. -/
inductive Progress (ω μ : Type) where
  | running (machine : Machine ω μ)
  | returned (memory : μ)
  | stuck

namespace Builder

variable {ω μ : Type} (sem : Semantics ω μ) (ir : Builder)

def reading (registers : ObjectId → ω) (id : ObjectId) : Reading ω :=
  match ir.kind? id with
  | some (.register _) => .value (registers id)
  | some (.immediate operand) => .value (sem.literal operand)
  | some (.memory operand) => .memory (registers operand.base) (operand.index?.map registers) operand.offset
  | _ => .absent

/-- The instructions of a block. -/
def code (id : ObjectId) : List InstId := ((ir.block? id).map (·.instructions)).getD []

/-- Goes on at the start of a block. -/
def goTo (machine : Machine ω μ) (target : ObjectId) : Progress ω μ :=
  match ir.block? target with
  | some block => .running { machine with rest := block.instructions }
  | none => .stuck

/-- Whether a jump is taken. -/
def holds (registers : ObjectId → ω) (id : ObjectId) : Bool :=
  match ir.reading sem registers id with
  | .value content => sem.isTrue content
  | _ => false

/-- Runs one instruction; `machine` is already behind it. -/
def execute (machine : Machine ω μ) (instr : Instruction) : Progress ω μ :=
  let sources := instr.operands.map (ir.reading sem machine.registers)
  match instr.opcode.code, instr.operands with
  | .jmp, [target] => ir.goTo machine target
  | .jnz, [value, target] =>
    if ir.holds sem machine.registers value then ir.goTo machine target else .running machine
  | .ret, [] => .returned machine.memory
  | .store _, _ => .running { machine with memory := sem.store instr.opcode sources machine.memory }
  | .jmp, _ | .jnz, _ | .ret, _ | _, [] => .stuck
  | _, target :: _ =>
    match ir.kind? target with
    | some (.register _) =>
      let result := sem.compute instr.opcode sources machine.memory
      .running { machine with registers := Function.update machine.registers target result }
    | _ => .stuck

def step (machine : Machine ω μ) : Progress ω μ :=
  match machine.rest with
  | [] => .stuck
  | id :: rest =>
    match ir.instruction? id with
    | some instr => ir.execute sem { machine with rest } instr
    | none => .stuck

/-- Runs a number of steps. -/
def steps : (count : Nat) → Machine ω μ → Progress ω μ
  | 0, machine => .running machine
  | count + 1, machine =>
    match ir.step sem machine with
    | .running next => steps count next
    | progress => progress

def Returns (machine : Machine ω μ) (memory : μ) : Prop :=
  ∃ count, ir.steps sem count machine = .returned memory

def RunsForever (machine : Machine ω μ) : Prop :=
  ∀ count, ∃ next, ir.steps sem count machine = .running next

/-- A machine at the start of the entry block. -/
def start (registers : ObjectId → ω) (memory : μ) : Machine ω μ :=
  ⟨(ir.entryBlock?.map ir.code).getD [], registers, memory⟩

/-! ## Steps in a row -/

def Reaches (count : Nat) (machine next : Machine ω μ) : Prop :=
  ir.steps sem count machine = .running next

variable {sem ir}

lemma steps_add {m n : Nat} {machine next : Machine ω μ} (h : ir.Reaches sem m machine next) :
    ir.steps sem (m + n) machine = ir.steps sem n next := by
  induction m generalizing machine with
  | zero =>
    cases h
    rw [Nat.zero_add]
  | succ m ih =>
    rw [Nat.add_right_comm, steps]
    rw [Reaches, steps] at h
    cases hs : ir.step sem machine with
    | running mid =>
      rw [hs] at h
      exact ih h
    | returned mem | stuck =>
      rw [hs] at h
      cases h

lemma Reaches.trans {m n : Nat} {a b c : Machine ω μ} (hab : ir.Reaches sem m a b)
    (hbc : ir.Reaches sem n b c) : ir.Reaches sem (m + n) a c := by
  rw [Reaches, steps_add hab]
  exact hbc

lemma Reaches.step {machine next : Machine ω μ} (h : ir.step sem machine = .running next) :
    ir.Reaches sem 1 machine next := by
  rw [Reaches, steps, h]
  rfl

end Builder

end Shading
