import Shading.Parse.Program
import Shading.Proofs.Parse.Stream
import Shading.Proofs.Tree.Alike

/-!
# Precedence

A row is a sequence of operands with binary operators between them.  Climbing
precedences reads it into the tree in which operators to the left of an
operator, below it, bind at least as tight, and those to its right bind tighter
(`Parser.binary_climbs`).  There is one such tree for each row
(`OperatorTree.eq_of_nested`).
-/

namespace Shading

open List

/-- Operands that are joined by operators. -/
inductive OperatorTree where
  | operand (node : Node)
  | operator (op : BinaryOp) (left right : OperatorTree)

variable {left right : OperatorTree} {ops' : List BinaryOp} {token? : Option Token} {rhs : Node}

namespace OperatorTree

/-- The operands from left to right. -/
def operands : OperatorTree → List Node
  | .operand node => [node]
  | .operator _ left right => left.operands ++ right.operands

/-- The operators from left to right. -/
def operators : OperatorTree → List BinaryOp
  | .operand _ => []
  | .operator op left right => left.operators ++ op :: right.operators

/-- The operator at the root. -/
def root? : OperatorTree → Option BinaryOp
  | .operand _ => none
  | .operator op _ _ => some op

/-- Operators on the left bind at least as tight as the one above them, those
on the right bind tighter. -/
def Nested : OperatorTree → Prop
  | .operand _ => True
  | .operator op left right => left.Nested ∧ right.Nested ∧
    (∀ below ∈ left.root?, op.precedence ≤ below.precedence) ∧
      ∀ below ∈ right.root?, op.precedence < below.precedence

variable {tree other : OperatorTree}

lemma length_operands (tree : OperatorTree) : tree.operands.length = tree.operators.length + 1 := by
  induction tree with
  | operand node => rfl
  | operator op left right ihLeft ihRight =>
    simp only [operands, operators, length_append, length_cons, ihLeft, ihRight]
    omega

/-- Operators bind at least as tight as the root. -/
lemma Nested.le_of_mem {least : Nat} (h : tree.Nested) (hroot : ∀ root ∈ tree.root?, least ≤ root.precedence) :
    ∀ op ∈ tree.operators, least ≤ op.precedence := by
  induction tree generalizing least with
  | operand node => exact nofun
  | operator top left right ihLeft ihRight =>
    obtain ⟨hleft, hright, hbelow, habove⟩ := h
    have htop := hroot top rfl
    intro op hm
    rcases mem_append.mp hm with hm | hm
    · exact ihLeft hleft (fun below hb => Nat.le_trans htop (hbelow below hb)) op hm
    rcases mem_cons.mp hm with rfl | hm
    · exact htop
    · exact ihRight hright (fun below hb => Nat.le_trans htop (Nat.le_of_lt (habove below hb))) op hm

/-- The root is the last of the operators that bind loosest. -/
lemma Nested.split {op : BinaryOp} (h : (operator op left right).Nested) :
    (∀ below ∈ left.operators, op.precedence ≤ below.precedence) ∧ ∀ below ∈ right.operators,
    op.precedence < below.precedence :=
  ⟨h.1.le_of_mem h.2.2.1, h.2.1.le_of_mem h.2.2.2⟩

/-- A list is split in one way at the last of its loosest operators. -/
lemma split_unique {op op' : BinaryOp} {pre before' after after' : List BinaryOp}
    (h : pre ++ op :: after = before' ++ op' :: after')
    (hbefore : ∀ below ∈ pre, op.precedence ≤ below.precedence)
    (hafter : ∀ below ∈ after, op.precedence < below.precedence)
    (hbefore' : ∀ below ∈ before', op'.precedence ≤ below.precedence)
    (hafter' : ∀ below ∈ after', op'.precedence < below.precedence) : pre = before' ∧ op = op' ∧
    after = after' := by
  rcases append_eq_append_iff.mp h with ⟨mid, hfirst, hrest⟩ | ⟨mid, hfirst, hrest⟩
  · cases mid with
    | nil =>
      obtain ⟨rfl, rfl⟩ := cons.inj hrest
      exact ⟨by rw [hfirst, append_nil], rfl, rfl⟩
    | cons first rest =>
      -- `op'` stands behind `op`, and `op` before `op'`.
      obtain ⟨rfl, rfl⟩ := cons.inj hrest
      have hlater := hafter op' (by simp)
      have hsooner := hbefore' op (by simp [hfirst])
      omega
  · cases mid with
    | nil =>
      obtain ⟨rfl, rfl⟩ := cons.inj hrest
      exact ⟨by rw [hfirst, append_nil], rfl, rfl⟩
    | cons first rest =>
      obtain ⟨rfl, rfl⟩ := cons.inj hrest
      have hlater := hafter' op (by simp)
      have hsooner := hbefore op' (by simp [hfirst])
      omega

/-- A row has one nested tree. -/
lemma eq_of_nested (h : tree.Nested) (h' : other.Nested) (hopds : tree.operands = other.operands)
    (hoperators : tree.operators = other.operators) : tree = other := by
  induction tree generalizing other with
  | operand node =>
    cases other with
    | operand node' => exact congrArg operand (cons.inj hopds).1
    | operator op left right => simp [operators] at hoperators
  | operator op left right ihLeft ihRight =>
    cases other with
    | operand node => simp [operators] at hoperators
    | operator op' left' right' =>
      obtain ⟨hl, rfl, hr⟩ := split_unique hoperators h.split.1 h.split.2 h'.split.1 h'.split.2
      have hlen : left.operands.length = left'.operands.length := by rw [length_operands, length_operands, hl]
      obtain ⟨hlefts, hrights⟩ := append_inj hopds hlen
      rw [ihLeft h.1 h'.1 hlefts hl, ihRight h.2.1 h'.2.1 hrights hr]

end OperatorTree

/-- A node is a tree of operators, but for conversions of operands and for
numbers and links. -/
inductive Node.Spells : Node → OperatorTree → Prop where
  | operand (node : Node) : Spells node (.operand node)
  | operator {lhs rhs : Node} {op : BinaryOp} {left right : OperatorTree} (label : Label) (hleft : Spells lhs left)
    (hright : Spells rhs right) : Spells (.mk label (.binary op lhs rhs)) (.operator op left right)
  | cast {node : Node} {tree : OperatorTree} (label : Label) (h : Spells node tree) :
      Spells (.mk label (.unary .cast node)) tree
  /-- A literal is converted at once. -/
  | literal {node : Node} {tree : OperatorTree} {value converted : Value} {base : Base}
      (hvalue : node.immediate? = some value)
    (hcast : value.cast base = some converted) (h : Spells node tree) : Spells (node.toImmediate converted) tree
  | alike {node other : Node} {tree : OperatorTree} (h : Spells node tree) (halike : node.Alike other) :
      Spells other tree

/-! ## Rows of tokens -/

/-- What a source reads as. -/
abbrev Lexemes := List (Except LexicalError Token)

/-- The operator that comes next. -/
def nextOp? : Lexemes → Option BinaryOp
  | .ok token :: _ => token.kind.binaryOp?
  | _ => none

/-- One call of the parser for unary expressions takes the tokens up to `rest`. -/
def TakesUnary (lexemes : Lexemes) (node : Node) (rest : Lexemes) : Prop :=
  ∃ depth st later, st.lexemes = lexemes ∧ (Grammar.ofDepth depth).unary.run st = .ok (node, later) ∧
    later.lexemes = rest

/-- Calls of the parser for unary expressions, with an operator between each
two, take the tokens up to `rest`. -/
inductive TakesRow : Lexemes → List Node → List BinaryOp → Lexemes → Prop where
  | last {lexemes rest : Lexemes} {node : Node} (h : TakesUnary lexemes node rest) :
      TakesRow lexemes [node] [] rest
  | more {lexemes mid rest : Lexemes} {node : Node} {token : Token} {op : BinaryOp} {nodes : List Node}
      {ops : List BinaryOp}
    (h : TakesUnary lexemes node (.ok token :: mid)) (hop : token.kind.binaryOp? = some op)
    (hrow : TakesRow mid nodes ops rest) : TakesRow lexemes (node :: nodes) (op :: ops) rest

/-- A sequence of operands and operators up to `rest`, where no operator
follows: no call of the parser for unary expressions takes more or less than
an operand. -/
inductive IsRow : Lexemes → List BinaryOp → Lexemes → Prop where
  | last {lexemes rest : Lexemes} (h : ∀ node stop, TakesUnary lexemes node stop → stop = rest)
      (hnext : nextOp? rest = none) :
    IsRow lexemes [] rest
  | more {lexemes mid rest : Lexemes} {token : Token} {op : BinaryOp} {ops : List BinaryOp}
    (h : ∀ node stop, TakesUnary lexemes node stop → stop = .ok token :: mid)
    (hop : token.kind.binaryOp? = some op) (hrow : IsRow mid ops rest) : IsRow lexemes (op :: ops) rest

variable {lexemes mid rest : Lexemes} {token : Token} {op : BinaryOp} {node : Node} {nodes : List Node}
  {ops : List BinaryOp} {least : Nat}

lemma TakesRow.join {nodes' : List Node} (h : TakesRow lexemes nodes ops (.ok token :: mid))
    (hop : token.kind.binaryOp? = some op) (h' : TakesRow mid nodes' ops' rest) :
    TakesRow lexemes (nodes ++ nodes') (ops ++ op :: ops') rest := by
  generalize hstop : (.ok token :: mid : Lexemes) = stop at h
  induction h with
  | last hunary =>
    subst hstop
    exact .more hunary hop h'
  | more hunary hfirst _ ih => exact .more hunary hfirst (ih hstop)

/-- Where operators bind too loose, the rest of a sequence is left. -/
lemma IsRow.taken {stop : Lexemes} (h : IsRow lexemes ops rest) (htaken : TakesRow lexemes nodes ops' stop)
    (hstop : ∀ op ∈ nextOp? stop, op.precedence < least) :
    ∃ left, ops = ops' ++ left ∧ (∀ op ∈ left.head?, op.precedence < least) ∧
    (left = [] → stop = rest) := by
  induction h generalizing nodes ops' with
  | last hunary hnext =>
    cases htaken with
    | last hcall => exact ⟨[], rfl, nofun, fun _ => hunary _ _ hcall⟩
    | more hcall hop _ =>
      rw [← hunary _ _ hcall, nextOp?, hop] at hnext
      cases hnext
  | @more _ _ _ _ op ops hunary hop _ ih =>
    cases htaken with
    | last hcall =>
      obtain rfl := hunary _ _ hcall
      refine ⟨op :: ops, rfl, fun other hm => hstop other (hop.trans hm), nofun⟩
    | more hcall hop' hrow' =>
      obtain ⟨htoken, rfl⟩ := cons.inj (hunary _ _ hcall)
      obtain rfl := Except.ok.inj htoken
      obtain rfl := Option.some.inj (hop.symm.trans hop')
      obtain ⟨left, rfl, hleft, hrest⟩ := ih hrow'
      exact ⟨left, rfl, hleft, hrest⟩

namespace Parser

variable {st later : ParseState}

lemma peek_ok (h : peek.run st = .ok (token?, later)) :
    later = st ∧ token?.bind (·.kind.binaryOp?) = nextOp? st.lexemes := by
  replace h := StateT.run_get_bind_ok h
  obtain ⟨lexemes, size, symbols, count⟩ := st
  cases lexemes with
  | nil =>
    obtain ⟨rfl, rfl⟩ := StateT.run_pure_ok h
    exact ⟨rfl, rfl⟩
  | cons first rest =>
    cases first with
    | error error => exact (StateT.run_throw_ok h).elim
    | ok token =>
      obtain ⟨rfl, rfl⟩ := StateT.run_pure_ok h
      exact ⟨rfl, rfl⟩

lemma next_ok (h : next.run st = .ok (token?, later)) : later.lexemes = st.lexemes.tail := by
  obtain ⟨_, mid, hpeek, hrest⟩ := StateT.run_bind_ok h
  cases hrest
  rw [(peek_ok hpeek).1]

lemma makeNode_ok {form : Form Node} {type : ValueType} {span : Span}
    (h : (makeNode form type span).run st = .ok (node, later)) :
    later.lexemes = st.lexemes ∧ ∃ lbl, (Node.mk lbl form).Alike node := by
  cases h
  exact ⟨rfl, ⟨⟨0⟩, none, type, span⟩, .create _ _ _ _ rfl⟩

/-- A conversion takes no token and leaves what the operand spells. -/
lemma coerce_ok {operand : Node} {tree : OperatorTree} {tgt : ValueType} (hspells : operand.Spells tree)
    (h : (coerce operand tgt).run st = .ok (node, later)) : later.lexemes = st.lexemes ∧ node.Spells tree := by
  unfold coerce at h
  split at h
  · obtain ⟨rfl, rfl⟩ := StateT.run_pure_ok h
    exact ⟨rfl, hspells⟩
  split at h
  · exact (StateT.run_throw_ok h).elim
  split at h
  · rename_i converted hconverted
    obtain ⟨val, hval, hcast⟩ := Option.bind_eq_some_iff.mp hconverted
    obtain ⟨rfl, rfl⟩ := StateT.run_pure_ok h
    exact ⟨rfl, .literal hval hcast hspells⟩
  · cases h
    exact ⟨rfl, .alike (.cast { operand.label with type := tgt } hspells) (.wrapInCast operand _ _)⟩

lemma makeBinary_ok {lhs : Node} (hlhs : lhs.Spells left) (hrhs : rhs.Spells right)
    (h : (makeBinary op lhs rhs).run st = .ok (node, later)) :
    later.lexemes = st.lexemes ∧ node.Spells (.operator op left right) := by
  unfold makeBinary at h
  dsimp only at h
  split at h
  · exact (StateT.run_throw_ok h).elim
  · obtain ⟨hsame, lbl, halike⟩ := makeNode_ok h
    exact ⟨hsame, .alike (.operator lbl hlhs hrhs) halike⟩
  · obtain ⟨lhs', mid, hleft, h⟩ := StateT.run_bind_ok h
    obtain ⟨rhs', last, hright, h⟩ := StateT.run_bind_ok h
    obtain ⟨hsame, hlhs'⟩ := coerce_ok hlhs hleft
    obtain ⟨hsame', hrhs'⟩ := coerce_ok hrhs hright
    obtain ⟨hsame'', lbl, halike⟩ := makeNode_ok h
    exact ⟨hsame''.trans (hsame'.trans hsame), .alike (.operator lbl hlhs' hrhs') halike⟩

/-! ## Climbing -/

/-- A node was read up to `rest`: it spells a nested tree of operators that are
tight enough. -/
structure Climbed (least : Nat) (lexemes : Lexemes) (node : Node) (rest : Lexemes)
    (tree : OperatorTree) : Prop where
  spells : node.Spells tree
  nested : tree.Nested
  taken : TakesRow lexemes tree.operands tree.operators rest
  least_le : ∀ op ∈ tree.operators, least ≤ op.precedence

/-- A node was read, and the operator behind it binds no tighter than its root. -/
def Paused (least : Nat) (lexemes : Lexemes) (node : Node) (rest : Lexemes) : Prop :=
  ∃ tree, Climbed least lexemes node rest tree ∧ ∀ op ∈ nextOp? rest, ∀ root ∈ tree.root?,
    op.precedence ≤ root.precedence

/-- A node was read, and the operator behind it is too loose. -/
def Stopped (least : Nat) (lexemes : Lexemes) (node : Node) (rest : Lexemes) : Prop :=
  ∃ tree, Climbed least lexemes node rest tree ∧ ∀ op ∈ nextOp? rest, op.precedence < least

/-- What a parser reads is as tight as asked for, and looser operators are left. -/
def Climbs (parser : Nat → Parser Node) : Prop :=
  ∀ {least st node later}, (parser least).run st = .ok (node, later) → Stopped least st.lexemes node later.lexemes

lemma exists_of_nextOp? (h : nextOp? lexemes = some op) :
    ∃ token rest, lexemes = .ok token :: rest ∧ token.kind.binaryOp? = some op := by
  cases lexemes with
  | nil => cases h
  | cons first rest =>
    cases first with
    | error error => cases h
    | ok token => exact ⟨token, rest, rfl, h⟩

/-- An operator joins what was read and what binds tighter behind it. -/
lemma Climbed.join {lhs : Node} (h : Climbed least lexemes lhs (.ok token :: mid) left)
    (hop : token.kind.binaryOp? = some op) (hleast : least ≤ op.precedence)
    (hroot : ∀ root ∈ left.root?, op.precedence ≤ root.precedence)
    (h' : Climbed (op.precedence + 1) mid rhs rest right) (hnode : node.Spells (.operator op left right)) :
    Climbed least lexemes node rest (.operator op left right) := by
  refine ⟨hnode, ⟨h.nested, h'.nested, hroot, fun below hm => h'.least_le below ?_⟩, h.taken.join hop h'.taken,
    fun other hm => ?_⟩
  · cases right with
    | operand node => cases hm
    | operator top _ _ =>
      obtain rfl := Option.some.inj hm
      exact mem_append_right _ (.head _)
  · rcases mem_append.mp hm with hm | hm
    · exact h.least_le other hm
    rcases mem_cons.mp hm with rfl | hm
    · exact hleast
    · exact Nat.le_trans hleast (Nat.le_of_succ_le (h'.least_le other hm))

section

variable {inner : Grammar} (hinner : Climbs inner.binary) {lhs : Node} (h : Paused least lexemes lhs st.lexemes)
include hinner h

/-- A round takes an operator and what binds tighter behind it.  What stopped
that is no tighter than the operator, which is the root now. -/
lemma climb_climbs {round : Round Node Node} (hrun : (climb inner least lhs).run st = .ok (round, later)) :
    round.Holds (Paused least lexemes · later.lexemes) (Stopped least lexemes · later.lexemes) := by
  obtain ⟨left, hleft, hroot⟩ := h
  obtain ⟨token?, first, hpeek, hrest⟩ := StateT.run_bind_ok hrun
  obtain ⟨hfirst, hnext⟩ := peek_ok hpeek
  rw [hfirst, hnext] at hrest
  cases hop : nextOp? st.lexemes with
  | none =>
    rw [hop] at hrest
    obtain ⟨hround, hlater⟩ := StateT.run_pure_ok hrest
    rw [hround, hlater]
    exact ⟨left, hleft, by rw [hop]; exact nofun⟩
  | some op =>
    rw [hop] at hrest
    dsimp only at hrest
    split at hrest
    · rename_i hlt
      obtain ⟨hround, hlater⟩ := StateT.run_pure_ok hrest
      rw [hround, hlater]
      refine ⟨left, hleft, fun other hm => ?_⟩
      obtain rfl := Option.some.inj (hop.symm.trans hm)
      exact hlt
    · rename_i hle
      obtain ⟨token, rest, hlexemes, hkind⟩ := exists_of_nextOp? hop
      obtain ⟨_, behind, htoken, hrest⟩ := StateT.run_bind_ok hrest
      obtain ⟨rhs, mid, hrhs, hrest⟩ := StateT.run_bind_ok hrest
      obtain ⟨node, last, hmake, hrest⟩ := StateT.run_bind_ok hrest
      obtain ⟨right, hright, htight⟩ := hinner hrhs
      obtain ⟨hsame, hspells⟩ := makeBinary_ok hleft.spells hright.spells hmake
      obtain ⟨hround, hlater⟩ := StateT.run_pure_ok hrest
      rw [next_ok htoken, hlexemes, tail_cons] at hright
      rw [hlexemes] at hleft
      rw [hround, hlater]
      refine ⟨.operator op left right, ?_, ?_⟩
      · rw [hsame]
        exact hleft.join hkind (Nat.le_of_not_lt hle) (hroot op hop) hright hspells
      · rw [hsame]
        intro other hm root hroot
        obtain rfl := Option.some.inj hroot
        exact Nat.le_of_lt_succ (htight other hm)

lemma iterateUpTo_climbs (bound : Nat) (hrun : (iterateUpTo (climb inner least) bound lhs).run st =
    .ok (node, later)) : Stopped least lexemes node later.lexemes := by
  induction bound generalizing lhs st with
  | zero => cases hrun
  | succ bound ih =>
    obtain ⟨round, mid, hround, hrest⟩ := StateT.run_bind_ok hrun
    have hstep := climb_climbs hinner h hround
    cases round with
    | done res =>
      obtain ⟨hnode, hlater⟩ := StateT.run_pure_ok hrest
      rw [hnode, hlater]
      exact hstep
    | more next => exact ih hstep hrest

end

lemma binary_climbs (depth : Nat) : Climbs (Grammar.ofDepth depth).binary := by
  induction depth with
  | zero =>
    intro least st node later hrun
    cases hrun
  | succ depth ih =>
    intro least st node later hrun
    obtain ⟨first, mid, hfirst, hrest⟩ := StateT.run_bind_ok hrun
    have hunary : TakesUnary st.lexemes first mid.lexemes := ⟨depth + 1, st, mid, rfl, hfirst, rfl⟩
    have hclimbed : Climbed least st.lexemes first mid.lexemes (.operand first) :=
      ⟨.operand first, trivial, .last hunary, forall_mem_nil _⟩
    exact iterateUpTo_climbs ih ⟨_, hclimbed, fun _ _ => nofun⟩ _ (StateT.run_get_bind_ok hrest)

/-- Climbing from the precedence `least` reads the longest start of a row whose
operators bind that tight, into the one nested tree of its operands; from the
lowest precedence it reads the whole row. -/
theorem binary_reads_row {depth : Nat} {state : ParseState} (hrow : IsRow state.lexemes ops rest)
    (hrun : ((Grammar.ofDepth depth).binary least).run state = .ok (node, later)) :
    ∃ (tree : OperatorTree) (left : List BinaryOp), node.Spells tree ∧ tree.Nested ∧
      TakesRow state.lexemes tree.operands tree.operators later.lexemes ∧ ops = tree.operators ++ left ∧
      (∀ op ∈ tree.operators, least ≤ op.precedence) ∧ (∀ op ∈ left.head?, op.precedence < least) ∧
      (least = 0 → left = [] ∧ later.lexemes = rest) ∧
      ∀ other : OperatorTree, other.Nested → other.operands = tree.operands → other.operators = tree.operators →
      other = tree := by
  obtain ⟨tree, hclimbed, hnext⟩ := binary_climbs depth hrun
  obtain ⟨left, hops, hleft, hrest⟩ := hrow.taken hclimbed.taken hnext
  refine ⟨tree, left, hclimbed.spells, hclimbed.nested, hclimbed.taken, hops, hclimbed.least_le, hleft,
    fun hzero => ?_,
    fun _ hnested hoperands hoperators => OperatorTree.eq_of_nested hnested hclimbed.nested hoperands hoperators⟩
  cases left with
  | nil => exact ⟨rfl, hrest rfl⟩
  | cons op left =>
    have hlt := hleft op rfl
    omega

/-- `true || false && true`. -/
def threeTruths : ParseState :=
  ⟨[.ok ⟨.booleanLiteral, ⟨0, 4⟩, "true"⟩, .ok ⟨.logicalOr, ⟨5, 7⟩, "||"⟩,
    .ok ⟨.booleanLiteral, ⟨8, 13⟩, "false"⟩,
    .ok ⟨.logicalAnd, ⟨14, 16⟩, "&&"⟩, .ok ⟨.booleanLiteral, ⟨17, 21⟩, "true"⟩], 21, .empty, 0⟩

theorem binary_reads_row_threeTruths : ∃ node later,
    ((Grammar.ofDepth 3).binary 0).run threeTruths = .ok (node, later) ∧ later.lexemes = [] ∧
    ∃ tree : OperatorTree, node.Spells tree ∧ tree.Nested ∧ tree.operators = [.or, .and] := by
  have hliteral {span : Span} {text : String} {rest stop : Lexemes} {node : Node}
      (hrest : rest = [] ∨ ∃ span text others, rest = .ok ⟨.logicalOr, span, text⟩ :: others ∨
        rest = .ok ⟨.logicalAnd, span, text⟩ :: others)
      (h : TakesUnary (.ok ⟨.booleanLiteral, span, text⟩ :: rest) node stop) : stop = rest := by
    obtain ⟨depth, ⟨lexemes, size, symbols, count⟩, later, rfl, hunary, rfl⟩ := h
    cases depth with
    | zero => cases hunary
    | succ depth => rcases hrest with rfl | ⟨_, _, _, rfl | rfl⟩ <;> cases hunary <;> rfl
  have hrow : IsRow threeTruths.lexemes [.or, .and] [] :=
    .more (fun _ _ => hliteral (.inr ⟨_, _, _, .inl rfl⟩)) rfl
      (.more (fun _ _ => hliteral (.inr ⟨_, _, _, .inr rfl⟩)) rfl (.last (fun _ _ => hliteral (.inl rfl)) rfl))
  obtain ⟨node, later, hrun⟩ : ∃ node later, ((Grammar.ofDepth 3).binary 0).run threeTruths =
      .ok (node, later) := ⟨_, _, rfl⟩
  obtain ⟨tree, left, hspells, hnested, -, hops, -, -, hwhole, -⟩ := binary_reads_row hrow hrun
  obtain ⟨rfl, hstop⟩ := hwhole rfl
  rw [List.append_nil] at hops
  exact ⟨node, later, hrun, hstop, tree, hspells, hnested, hops.symm⟩

end Parser

end Shading
