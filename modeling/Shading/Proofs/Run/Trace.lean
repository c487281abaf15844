import Shading.Proofs.Run.Machine

/-!
# What runs show

A run shows the instructions it performs that are not pure: stores, jumps and
returns, each with what it saw of its operands (`Event`).  Two builders have
the same runs (`Builder.SameRuns`) if each shows whatever the other shows, and
comes to the same end.

`Builder.Cut` describes a builder from which instructions were taken out that
write registers nothing else names.  Such builders have the same runs: the
registers agree but for those, and the run without the instructions is a few
silent steps shorter.
-/

namespace Shading

variable {opcode : Opcode} {opds : List ObjectId} {id : ObjectId}

/-- What a run shows of an operand. -/
inductive Shown (ω : Type) where
  | reading (reading : Reading ω)
  | block (id : ObjectId)

/-- An instruction that was performed, with its operands. -/
structure Event (ω : Type) where
  opcode : Opcode
  operands : List (Shown ω)

namespace Progress

/-- Two runs are both under way, or ended in the same way. -/
inductive Like {ω μ : Type} : Progress ω μ → Progress ω μ → Prop where
  | running (a b : Machine ω μ) : Like (.running a) (.running b)
  | returned (memory : μ) : Like (.returned memory) (.returned memory)
  | stuck : Like .stuck .stuck

lemma Like.trans {ω μ : Type} {a b c : Progress ω μ} (h : Like a b) (h' : Like b c) : Like a c := by
  cases h with
  | running a b =>
    cases h' with
    | running b c => exact .running a c
  | returned memory | stuck => exact h'

end Progress

namespace Builder

variable {ω μ : Type} (sem : Semantics ω μ) (ir : Builder)

def shown (registers : ObjectId → ω) (id : ObjectId) : Shown ω :=
  match ir.kind? id with
  | some (.block _) => .block id
  | _ => .reading (ir.reading sem registers id)

/-- What performing an instruction shows. -/
def eventOf (registers : ObjectId → ω) (instr : Instruction) : List (Event ω) :=
  if instr.opcode.code.isPure then []
  else [⟨instr.opcode, instr.operands.map (ir.shown sem registers)⟩]

/-- What the next step shows. -/
def event (machine : Machine ω μ) : List (Event ω) :=
  match machine.rest with
  | [] => []
  | id :: _ =>
    match ir.instruction? id with
    | some instr => ir.eventOf sem machine.registers instr
    | none => []

/-- What some steps show. -/
def events : (count : Nat) → Machine ω μ → List (Event ω)
  | 0, _ => []
  | count + 1, machine =>
    ir.event sem machine ++
      match ir.step sem machine with
      | .running next => events count next
      | _ => []

/-- The run shows these events first. -/
def Shows (machine : Machine ω μ) (events : List (Event ω)) : Prop := ∃ count, ir.events sem count machine = events

variable {sem ir} {later last : Builder} {a b : Machine ω μ}

/-! ## Runs that cover others -/

/-- Whatever the first run shows and comes to, the second does too. -/
def Covered (sem : Semantics ω μ) (ir : Builder) (machine : Machine ω μ) (later : Builder)
    (machine' : Machine ω μ) : Prop :=
  ∀ count, ∃ count', later.events sem count' machine' = ir.events sem count machine ∧
    (ir.steps sem count machine).Like (later.steps sem count' machine')

lemma Covered.trans {c : Machine ω μ} (h : Covered sem ir a later b) (h' : Covered sem later b last c) :
    Covered sem ir a last c := by
  intro count
  obtain ⟨count', hevents, hlike⟩ := h count
  obtain ⟨count'', hevents', hlike'⟩ := h' count'
  exact ⟨count'', hevents'.trans hevents, hlike.trans hlike'⟩

lemma Covered.refl (machine : Machine ω μ) : Covered sem ir machine ir machine := by
  intro count
  refine ⟨count, rfl, ?_⟩
  cases ir.steps sem count machine with
  | running next => exact .running next next
  | returned memory => exact .returned memory
  | stuck => exact .stuck

/-- The builders run alike, from all registers and memories. -/
def SameRuns (ir later : Builder) : Prop :=
  ∀ (ω μ : Type) (sem : Semantics ω μ) (registers : ObjectId → ω) (memory : μ),
    Covered sem ir (ir.start registers memory) later (later.start registers memory) ∧
      Covered sem later (later.start registers memory) ir (ir.start registers memory)

lemma SameRuns.refl (ir : Builder) : ir.SameRuns ir := fun _ _ _ _ _ => ⟨.refl _, .refl _⟩

lemma SameRuns.trans (h : ir.SameRuns later) (h' : later.SameRuns last) : ir.SameRuns last := by
  intro ω μ sem registers memory
  obtain ⟨hab, hba⟩ := h ω μ sem registers memory
  obtain ⟨hbc, hcb⟩ := h' ω μ sem registers memory
  exact ⟨hab.trans hbc, hcb.trans hba⟩

lemma Covered.shows (h : Covered sem ir a later b) {events : List (Event ω)}
    (hs : ir.Shows sem a events) : later.Shows sem b events := by
  obtain ⟨count, rfl⟩ := hs
  obtain ⟨count', hevents, -⟩ := h count
  exact ⟨count', hevents⟩

lemma Covered.returns (h : Covered sem ir a later b) {memory : μ}
    (hr : ir.Returns sem a memory) : later.Returns sem b memory := by
  obtain ⟨count, hcount⟩ := hr
  obtain ⟨count', -, hlike⟩ := h count
  rw [hcount] at hlike
  cases hc : later.steps sem count' b with
  | running next | stuck =>
    rw [hc] at hlike
    cases hlike
  | returned memory' =>
    rw [hc] at hlike
    cases hlike
    exact ⟨count', hc⟩

/-- A run that would end has an end to cover. -/
lemma Covered.runsForever (h : Covered sem later b ir a)
    (hf : ir.RunsForever sem a) : later.RunsForever sem b := by
  intro count
  obtain ⟨count', -, hlike⟩ := h count
  obtain ⟨next, hnext⟩ := hf count'
  rw [hnext] at hlike
  cases hc : later.steps sem count b with
  | running next => exact ⟨next, rfl⟩
  | returned memory | stuck =>
    rw [hc] at hlike
    cases hlike

/-! ## Taking out instructions -/

/-- A pure instruction writes its first operand. -/
lemma execute_pure {machine : Machine ω μ} (h : opcode.code.isPure = true) :
    ir.execute sem machine ⟨opcode, opds⟩ = match opds with
      | [] => .stuck
      | tgt :: _ =>
        match ir.kind? tgt with
        | some (.register _) =>
          let res := sem.compute opcode (opds.map (ir.reading sem machine.registers)) machine.memory
          .running { machine with registers := Function.update machine.registers tgt res }
        | _ => .stuck := by
  obtain ⟨code, width⟩ := opcode
  cases code with
  | store access | jmp | jnz | ret => cases h
  | _ => cases opds <;> rfl

/-- What an instruction sees of an operand is the same in both builders, and
it does not see certain registers. -/
structure SeenAlike (ir : Builder) (hidden : List ObjectId) (later : Builder) (id : ObjectId) : Prop where
  free : id ∉ hidden
  kind : (∃ block, ir.kind? id = some (.block block)) ∧ (∃ block, later.kind? id = some (.block block)) ∨
    later.kind? id = ir.kind? id
  base : ∀ operand, ir.kind? id = some (.memory operand) → operand.base ∉ hidden ∧ ∀ index ∈ operand.index?,
    index ∉ hidden

/-- Pure instructions are gone that write registers which nothing else sees. -/
structure Cut (ir : Builder) (gone : List InstId) (hidden : List ObjectId) (later : Builder) : Prop where
  code : ∀ inst ∈ gone, ∃ opcode target others, ir.instruction? inst = some ⟨opcode, target :: others⟩ ∧
    opcode.code.isPure = true ∧ target ∈ hidden ∧ ∃ register, ir.kind? target = some (.register register)
  instruction : ∀ inst, inst ∉ gone → later.instruction? inst = ir.instruction? inst
  block : ∀ id, (later.block? id).map (·.instructions) = (ir.block? id).map fun block =>
    block.instructions.filter (· ∉ gone)
  entry : later.entryBlock? = ir.entryBlock?
  operands : ∀ inst instr, inst ∉ gone → ir.instruction? inst = some instr →
    ∀ id ∈ instr.operands, ir.SeenAlike hidden later id

namespace Cut

variable {gone : List InstId} {hidden : List ObjectId}

/-- The machines differ in the hidden registers and in the instructions that
are gone. -/
structure Matches (gone : List InstId) (hidden : List ObjectId) (machine machine' : Machine ω μ) : Prop where
  rest : machine'.rest = machine.rest.filter (· ∉ gone)
  registers : ∀ id, id ∉ hidden → machine'.registers id = machine.registers id
  memory : machine'.memory = machine.memory

section

variable {registers registers' : ObjectId → ω} (h : ir.SeenAlike hidden later id)
  (hr : ∀ id, id ∉ hidden → registers' id = registers id)

include h hr

lemma reading_eq : later.reading sem registers' id = ir.reading sem registers id := by
  unfold reading
  rcases h.kind with ⟨⟨block, hb⟩, ⟨block', hb'⟩⟩ | hkind
  · rw [hb, hb']
  · rw [hkind]
    cases hk : ir.kind? id with
    | none => rfl
    | some kind =>
      cases kind with
      | register reg => exact congrArg Reading.value (hr id h.free)
      | immediate opd | block block => rfl
      | memory opd =>
        obtain ⟨hbase, hindex⟩ := h.base opd hk
        have hmap : opd.index?.map registers' = opd.index?.map registers := by
          cases hi : opd.index? with
          | none => rfl
          | some index => exact congrArg some (hr index (hindex index hi))
        dsimp only
        rw [hr _ hbase, hmap]

lemma shown_eq : later.shown sem registers' id = ir.shown sem registers id := by
  unfold shown
  rw [reading_eq h hr]
  rcases h.kind with ⟨⟨block, hb⟩, ⟨block', hb'⟩⟩ | hkind
  · rw [hb, hb']
  · rw [hkind]

end

/-- Progress that matches. -/
inductive Follows (gone : List InstId) (hidden : List ObjectId) : Progress ω μ → Progress ω μ → Prop where
  | running {machine machine' : Machine ω μ} (h : Matches gone hidden machine machine') :
      Follows gone hidden (.running machine) (.running machine')
  | returned (memory : μ) : Follows gone hidden (.returned memory) (.returned memory)
  | stuck : Follows gone hidden .stuck .stuck

variable {machine machine' : Machine ω μ}

lemma goTo_follows (h : ir.Cut gone hidden later) (hm : Matches gone hidden machine machine')
    (tgt : ObjectId) : Follows gone hidden (ir.goTo machine tgt) (later.goTo machine' tgt) := by
  have hblk := h.block tgt
  unfold goTo
  cases hb : ir.block? tgt with
  | none =>
    rw [hb] at hblk
    rw [Option.map_eq_none_iff.mp hblk]
    exact .stuck
  | some block =>
    rw [hb] at hblk
    obtain ⟨block', hb', hcode⟩ := Option.map_eq_some_iff.mp hblk
    rw [hb']
    exact .running ⟨hcode, hm.registers, hm.memory⟩

/-- Performing a pure instruction that both have. -/
lemma executePure_follows (hm : Matches gone hidden machine machine')
    (hpure : opcode.code.isPure = true) (hseen : ∀ id ∈ opds, ir.SeenAlike hidden later id)
    (hreadings : opds.map (later.reading sem machine'.registers) =
      opds.map (ir.reading sem machine.registers)) :
    Follows gone hidden (ir.execute sem machine ⟨opcode, opds⟩)
      (later.execute sem machine' ⟨opcode, opds⟩) := by
  rw [execute_pure hpure, execute_pure hpure]
  cases opds with
  | nil => exact .stuck
  | cons tgt others =>
    have htgt := hseen tgt (.head _)
    dsimp only
    rcases htgt.kind with ⟨⟨block, hb⟩, ⟨block', hb'⟩⟩ | hkind
    · rw [hb, hb']
      exact .stuck
    · rw [hkind, hreadings, hm.memory]
      split
      · refine .running ⟨hm.rest, fun id hid => ?_, rfl⟩
        simp only [Function.update_apply]
        split
        · rfl
        · exact hm.registers id hid
      · exact .stuck

section

variable (h : ir.Cut gone hidden later)
include h

section

variable (hm : Matches gone hidden machine machine')
include hm

lemma execute_follows {instr : Instruction} (hseen : ∀ id ∈ instr.operands, ir.SeenAlike hidden later id) :
    Follows gone hidden (ir.execute sem machine instr) (later.execute sem machine' instr) := by
  have hreadings : instr.operands.map (later.reading sem machine'.registers) =
      instr.operands.map (ir.reading sem machine.registers) :=
    List.map_congr_left fun id hid => reading_eq (hseen id hid) hm.registers
  have hgo := goTo_follows h hm
  obtain ⟨⟨code, width⟩, opds⟩ := instr
  cases code with
  | jmp =>
    rcases opds with _ | ⟨tgt, _ | ⟨_, _⟩⟩
    · exact .stuck
    · exact hgo tgt
    · exact .stuck
  | jnz =>
    rcases opds with _ | ⟨val, _ | ⟨tgt, _ | ⟨_, _⟩⟩⟩
    · exact .stuck
    · exact .stuck
    · have hholds : later.holds sem machine'.registers val = ir.holds sem machine.registers val := by
        rw [holds, reading_eq (hseen val (.head _)) hm.registers, holds]
      change Follows gone hidden (if ir.holds sem machine.registers val then _ else _)
        (if later.holds sem machine'.registers val then _ else _)
      rw [hholds]
      split
      · exact hgo tgt
      · exact .running hm
    · exact .stuck
  | ret =>
    cases opds with
    | nil =>
      change Follows gone hidden (.returned machine.memory) (.returned machine'.memory)
      rw [hm.memory]
      exact .returned _
    | cons _ _ => exact .stuck
  | store access =>
    change Follows gone hidden (.running { machine with memory := sem.store _ _ _ })
      (.running { machine' with memory := sem.store _ _ _ })
    refine .running ⟨hm.rest, hm.registers, ?_⟩
    dsimp only at hreadings ⊢
    rw [hreadings, hm.memory]
  | _ => exact executePure_follows hm rfl hseen hreadings

lemma step_follows (hhead : ∀ inst ∈ machine.rest.head?, inst ∉ gone) :
    later.event sem machine' = ir.event sem machine ∧
      Follows gone hidden (ir.step sem machine) (later.step sem machine') := by
  obtain ⟨rest, registers, memory⟩ := machine
  cases rest with
  | nil =>
    have hrest : machine'.rest = [] := hm.rest
    unfold event step
    rw [hrest]
    exact ⟨rfl, .stuck⟩
  | cons other rest =>
    have hne : other ∉ gone := hhead other rfl
    have hrest : machine'.rest = other :: rest.filter (· ∉ gone) := by
      rw [hm.rest]
      exact List.filter_cons_of_pos (by simpa using hne)
    unfold event step
    rw [hrest]
    dsimp only
    rw [h.instruction other hne]
    cases hi : ir.instruction? other with
    | none => exact ⟨rfl, .stuck⟩
    | some instr =>
      have hseen := h.operands other instr hne hi
      have hmatches : Matches gone hidden ⟨rest, registers, memory⟩ ⟨rest.filter (· ∉ gone),
          machine'.registers, machine'.memory⟩ :=
        ⟨rfl, hm.registers, hm.memory⟩
      refine ⟨?_, execute_follows h hmatches hseen⟩
      dsimp only
      unfold eventOf
      rw [List.map_congr_left fun id hid => shown_eq (hseen id hid) hm.registers]

/-- The step that one of them takes shows nothing. -/
lemma step_hidden {inst : InstId} {rest : List InstId} (hrest : machine.rest = inst :: rest)
    (hgone : inst ∈ gone) : ir.event sem machine = [] ∧
      ∃ next, ir.step sem machine = .running next ∧ next.rest = rest ∧ Matches gone hidden next machine' := by
  obtain ⟨opcode, tgt, others, hi, hpure, htgt, reg, hr⟩ := h.code inst hgone
  unfold event step
  rw [hrest]
  dsimp only
  rw [hi]
  dsimp only
  refine ⟨if_pos hpure, ?_⟩
  rw [execute_pure hpure]
  dsimp only
  rw [hr]
  refine ⟨_, rfl, rfl, ?_, fun id hid => ?_, hm.memory⟩
  · rw [hm.rest, hrest]
    exact List.filter_cons_of_neg (by simpa using hgone)
  · have hne : id ≠ tgt := fun heq => hid (heq ▸ htgt)
    exact (hm.registers id hid).trans (Function.update_of_ne hne _ _).symm

/-- Instructions at the start that are gone are passed over silently. -/
lemma settle : ∃ skipped next, (∀ count, ir.events sem (skipped + count) machine = ir.events sem count next) ∧
      ir.Reaches sem skipped machine next ∧ Matches gone hidden next machine' ∧ ∀ inst ∈ next.rest.head?,
      inst ∉ gone := by
  generalize hcode : machine.rest = code
  induction code generalizing machine with
  | nil => exact ⟨0, machine, fun count => by rw [Nat.zero_add], rfl, hm, by rw [hcode]; exact nofun⟩
  | cons other rest ih =>
    by_cases hgone : other ∈ gone
    · obtain ⟨hevent, next, hstep, hrest, hnext⟩ := step_hidden h hm hcode hgone
      obtain ⟨skipped, last, hevents, hreaches, hlast, hhead⟩ := ih hnext hrest
      refine ⟨1 + skipped, last, fun count => ?_, (Reaches.step hstep).trans hreaches, hlast, hhead⟩
      rw [Nat.add_assoc, Nat.add_comm 1, events, hevent, hstep, ← hevents]
      rfl
    · refine ⟨0, machine, fun count => by rw [Nat.zero_add], rfl, hm, ?_⟩
      rw [hcode]
      rintro inst hinst
      exact Option.some.inj hinst ▸ hgone

/-- The run without the instructions covers the other. -/
lemma covered : Covered sem ir machine later machine' := by
  intro count
  induction count generalizing machine machine' with
  | zero => exact ⟨0, rfl, .running _ _⟩
  | succ count ih =>
    by_cases hhead : ∃ inst ∈ machine.rest.head?, inst ∈ gone
    · obtain ⟨inst, hinst, hgone⟩ := hhead
      obtain ⟨rest, hrest⟩ := List.head?_eq_some_iff.mp hinst
      obtain ⟨hevent, next, hstep, -, hnext⟩ := step_hidden h hm hrest hgone
      obtain ⟨count', hevents, hlike⟩ := ih hnext
      refine ⟨count', ?_, ?_⟩
      · rw [hevents, events, hevent, hstep]
        rfl
      · rw [steps, hstep]
        exact hlike
    · obtain ⟨hevent, hfollows⟩ := step_follows h hm fun inst hinst hgone => hhead ⟨inst, hinst, hgone⟩
      generalize hp : ir.step sem machine = progress at hfollows
      generalize hp' : later.step sem machine' = progress' at hfollows
      cases hfollows with
      | running hnext =>
        obtain ⟨count', hevents, hlike⟩ := ih hnext
        refine ⟨count' + 1, ?_, ?_⟩
        · rw [events, events, hevent, hp, hp']
          exact congrArg _ hevents
        · rw [steps, steps, hp, hp']
          exact hlike
      | returned memory => exact ⟨1,
          by rw [events, events, hevent, hp, hp'], by rw [steps, steps, hp, hp']; exact .returned memory⟩
      | stuck => exact ⟨1, by rw [events, events, hevent, hp, hp'], by rw [steps, steps, hp, hp']; exact .stuck⟩

/-- The run with the instructions covers the other: it takes some silent steps
before each step that both take. -/
lemma covers : Covered sem later machine' ir machine := by
  intro count
  induction count generalizing machine machine' with
  | zero => exact ⟨0, rfl, .running _ _⟩
  | succ count ih =>
    obtain ⟨skipped, settled, hevents, hreaches, hsettled, hhead⟩ := settle h hm
    obtain ⟨hevent, hfollows⟩ := step_follows h hsettled hhead
    generalize hp : ir.step sem settled = progress at hfollows
    generalize hp' : later.step sem machine' = progress' at hfollows
    cases hfollows with
    | running hnext =>
      obtain ⟨count', hevents', hlike⟩ := ih hnext
      refine ⟨skipped + (count' + 1), ?_, ?_⟩
      · rw [hevents, events, events, hevent, hp, hp']
        exact congrArg _ hevents'
      · rw [steps_add hreaches, steps, steps, hp, hp']
        exact hlike
    | returned memory =>
      refine ⟨skipped + 1, ?_, ?_⟩
      · rw [hevents, events, events, hevent, hp, hp']
      · rw [steps_add hreaches, steps, steps, hp, hp']
        exact .returned memory
    | stuck =>
      refine ⟨skipped + 1, ?_, ?_⟩
      · rw [hevents, events, events, hevent, hp, hp']
      · rw [steps_add hreaches, steps, steps, hp, hp']
        exact .stuck

end

lemma start_matches (registers : ObjectId → ω) (memory : μ) :
    Matches gone hidden (ir.start registers memory) (later.start registers memory) := by
  refine ⟨?_, fun _ _ => rfl, rfl⟩
  unfold start
  dsimp only
  rw [h.entry]
  cases ir.entryBlock? with
  | none => rfl
  | some entry =>
    change later.code entry = (ir.code entry).filter _
    unfold Builder.code
    rw [h.block]
    cases ir.block? entry <;> rfl

lemma sameRuns : ir.SameRuns later :=
  fun _ _ _ registers memory => ⟨covered h (h.start_matches registers memory),
    covers h (h.start_matches registers memory)⟩

end

end Cut

end Builder

end Shading
