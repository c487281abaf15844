import Shading.Parse.Statement
import Shading.Proofs.Monad
import Shading.Proofs.Parse.Symbols
import Shading.Proofs.Text.Position
import Shading.Proofs.Tree.Links

/-!
# What parsers yield

`Parser.Yields allowed table old parser new good` says what a parser does that
starts with the symbols of `table`: it makes the nodes `new` of the nodes `old`
and numbers what it adds, its spans are those of the tokens and joins of them,
both those of the nodes and that of the error it fails with, and what it gives
and the symbols behind it are good.  Parsers for expressions leave the symbols
as they are (`Parser.Gives`), and those for tokens make no nodes either
(`Parser.Looks`).  What every round of a loop keeps holds at its end
(`Parser.Yields.iterate`).
-/

namespace Shading

open List Option

variable {may : Span → Prop} {span : Span}

/-- The order in which nodes were made does not matter. -/
lemma Numbered.perm {low high : Nat} {a b c : List Node} (h : Numbered low high a b) (hp : c.Perm a) :
    Numbered low high c b := by
  have hids : (Node.idsAll c).Perm (Node.idsAll a) := hp.flatMap_right _
  refine ⟨⟨h.grows.le, fun id hm => ?_, fun hn hlow => ?_⟩, fun hl => h.linked fun node hm =>
    hl node (hp.mem_iff.mpr hm)⟩
  · exact (h.grows.mem id hm).imp_left hids.mem_iff.mpr
  · exact h.grows.nodup (hids.nodup_iff.mp hn) fun id hm => hlow id (hids.mem_iff.mpr hm)

/-- The spans of the tokens and of the end of the text are allowed. -/
structure ParseState.Spanned (allowed : Span → Prop) (state : ParseState) : Prop where
  lexemes : ∀ lexeme ∈ state.lexemes, allowed (lexemeSpan lexeme)
  stop : allowed ⟨state.sourceSize, state.sourceSize⟩

namespace Parser

variable {α β σ : Type}

/-- Nodes that a round goes on or ends with. -/
def Round.held (more : σ → List Node) (done : α → List Node) : Round σ α → List Node
  | .more s => more s
  | .done a => done a

/-- What holds when a round goes on and when it is the last. -/
def Round.Holds (inv : σ → Prop) (post : α → Prop) : Round σ α → Prop
  | .more s => inv s
  | .done a => post a

/-- The nodes were made of others, and all spans are allowed. -/
structure Made (allowed : Span → Prop) (low : Nat) (old new : List Node) (later : ParseState) : Prop where
  numbered : Numbered low later.nodeCount old new
  nodes : ∀ node ∈ new, node.Spanned allowed
  state : later.Spanned allowed

/-- What a parser gives is made of some nodes and good, and its error stands at
an allowed span. -/
def Ends (allowed : Span → Prop) (low : Nat) (old : List Node) (new : α → List Node)
    (good : α → SymbolTable → Prop) : Except ParseError (α × ParseState) → Prop
  | .ok (a, later) => Made allowed low old (new a) later ∧ good a later.symbols
  | .error error => allowed error.span

/-- A parser makes nodes of others, and what it gives is good. -/
def Yields (allowed : Span → Prop) (table : SymbolTable) (old : List Node) (parser : Parser α)
    (new : α → List Node) (good : α → SymbolTable → Prop) : Prop :=
  ∀ ⦃st⦄, st.symbols = table → st.Spanned allowed → (∀ node ∈ old, node.Spanned allowed) →
    Ends allowed st.nodeCount old new good (parser.run st)

/-- The symbols stay as they are. -/
abbrev Gives (allowed : Span → Prop) (table : SymbolTable) (old : List Node) (parser : Parser α)
    (new : α → List Node) (good : α → Prop) : Prop :=
  Yields allowed table old parser new fun a later => later = table ∧ good a

/-- The nodes stay as they are, too. -/
abbrev Looks (allowed : Span → Prop) (table : SymbolTable) (old : List Node) (parser : Parser α)
    (good : α → Prop := fun _ => True) : Prop :=
  Gives allowed table old parser (fun _ => old) good

namespace Yields

variable {tbl : SymbolTable} {old : List Node} {x : Parser α} {f : α → Parser β} {mid : α → List Node}
  {new : β → List Node} {found : α → SymbolTable → Prop} {good : β → SymbolTable → Prop} {p : α → Prop}

lemma pure {a : α} (h : mid a = old) (ha : found a tbl) : Yields may tbl old (Pure.pure a) mid found := by
  rintro st rfl hstate hold
  exact ⟨⟨h ▸ .refl _ _, h ▸ hold, hstate⟩, ha⟩

lemma fail {fault : ParseFault} (h : may span) : Yields may tbl old (Parser.fail fault span) mid found :=
  fun _ _ _ _ => h

lemma bind (hx : Yields may tbl old x mid found)
    (hf : ∀ a later, found a later → (∀ node ∈ mid a, node.Spanned may) →
      Yields may later (mid a) (f a) new good) :
    Yields may tbl old (x >>= f) new good := by
  intro st hs hstate hold
  have hfirst := hx hs hstate hold
  rw [StateT.run_bind]
  cases hrun : x.run st with
  | error error =>
    rw [hrun] at hfirst
    exact hfirst
  | ok res =>
    rw [hrun] at hfirst
    obtain ⟨a, next⟩ := res
    obtain ⟨hmade, ha⟩ := hfirst
    have hsecond := hf a _ ha hmade.nodes rfl hmade.state hmade.nodes
    change Ends _ _ _ _ _ ((f a).run next)
    cases hlast : (f a).run next with
    | error error =>
      rw [hlast] at hsecond
      exact hsecond
    | ok res =>
      rw [hlast] at hsecond
      exact ⟨⟨hmade.numbered.trans hsecond.1.numbered, hsecond.1.nodes, hsecond.1.state⟩, hsecond.2⟩

/-- A part that leaves the symbols as they are. -/
lemma keep (hx : Gives may tbl old x mid p)
    (hf : ∀ a, p a → (∀ node ∈ mid a, node.Spanned may) → Yields may tbl (mid a) (f a) new good) :
    Yields may tbl old (x >>= f) new good := by
  refine hx.bind ?_
  rintro a _ ⟨rfl, ha⟩ hnodes
  exact hf a ha hnodes

/-- A part that leaves the nodes as they are, too. -/
lemma skip (hx : Looks may tbl old x p) (hf : ∀ a, p a → Yields may tbl old (f a) new good) :
    Yields may tbl old (x >>= f) new good :=
  hx.keep fun a ha _ => hf a ha

lemma one {x : Parser Node} {f : Node → Parser β} {p : Node → Prop}
    (hx : Gives may tbl old x (fun node => [node]) p)
    (hf : ∀ node, p node → node.Spanned may → Yields may tbl [node] (f node) new good) :
    Yields may tbl old (x >>= f) new good :=
  hx.keep fun node hp hnode => hf node hp (hnode node (.head _))

lemma imp {other : α → SymbolTable → Prop} (hx : Yields may tbl old x mid found)
    (h : ∀ a later, found a later → other a later) : Yields may tbl old x mid other := by
  intro st hs hstate hold
  have hends := hx hs hstate hold
  generalize x.run st = res at hends
  cases res with
  | error error => exact hends
  | ok res => exact ⟨hends.1, h _ _ hends.2⟩

lemma given (h : (∀ node ∈ old, node.Spanned may) → Yields may tbl old x mid found) :
    Yields may tbl old x mid found :=
  fun _ hs hstate hold => h hold hs hstate hold

lemma frame (hx : Yields may tbl old x mid found) (pre after : List Node) :
    Yields may tbl (pre ++ old ++ after) x (fun a => pre ++ mid a ++ after) found := by
  intro st hs hstate hold
  have hends := hx hs hstate fun node hm => hold node (mem_append_left _ (mem_append_right _ hm))
  generalize x.run st = res at hends
  cases res with
  | error error => exact hends
  | ok res =>
    refine ⟨⟨hends.1.numbered.frame pre after, fun node hm => ?_, hends.1.state⟩, hends.2⟩
    rcases mem_append.mp hm with hm | hm
    · rcases mem_append.mp hm with hm | hm
      · exact hold node (mem_append_left _ (mem_append_left _ hm))
      · exact hends.1.nodes node hm
    · exact hold node (mem_append_right _ hm)

lemma more (hx : Yields may tbl [] x mid found)
    (hf : ∀ a later, found a later → (∀ node ∈ mid a, node.Spanned may) →
      Yields may later (old ++ mid a) (f a) new good) :
    Yields may tbl old (x >>= f) new good := by
  have hframe := hx.frame old []
  simp only [append_nil] at hframe
  exact hframe.bind fun a later ha hnodes => hf a later ha fun node hm => hnodes node (mem_append_right _ hm)

lemma another {x : Parser Node} {f : Node → Parser β} {p : Node → Prop}
    (hx : Gives may tbl [] x (fun node => [node]) p)
    (hf : ∀ node, p node → node.Spanned may → Yields may tbl (old ++ [node]) (f node) new good) :
    Yields may tbl old (x >>= f) new good := by
  refine hx.more ?_
  rintro node _ ⟨rfl, hp⟩ hnode
  exact hf node hp (hnode node (.head _))

lemma perm {other : List Node} (hx : Yields may tbl old x mid found) (hp : other.Perm old) :
    Yields may tbl other x mid found := by
  intro st hs hstate hold
  have hends := hx hs hstate fun node hm => hold node (hp.mem_iff.mpr hm)
  generalize x.run st = res at hends
  cases res with
  | error error => exact hends
  | ok res => exact ⟨⟨hends.1.numbered.perm hp, hends.1.nodes, hends.1.state⟩, hends.2⟩

lemma get : Looks may tbl old (MonadState.get : Parser ParseState) fun st => st.symbols = tbl ∧ st.Spanned may :=
  fun _ hs hstate hold => ⟨⟨.refl _ _, hold, hstate⟩, hs, hs, hstate⟩

lemma failAtEnd {expected : String} : Yields may tbl old (Parser.failAtEnd expected) mid found :=
  get.skip fun _ hstate => fail hstate.2.stop

/-- What every round of a loop keeps holds of its result. -/
lemma iterate {step : σ → Parser (Round σ β)} (held : σ → List Node) (inv : σ → SymbolTable → Prop)
    (hstep : ∀ s tbl, inv s tbl → Yields may tbl (held s) (step s) (Round.held held new) fun round later =>
      round.Holds (inv · later) (good · later)) {s : σ} (hs : inv s tbl) :
    Yields may tbl (held s) (Parser.iterate step s) new good := by
  have hupTo (bound : Nat) : ∀ s tbl, inv s tbl → Yields may tbl (held s) (iterateUpTo step bound s) new good := by
    induction bound with
    | zero => exact fun _ _ _ => failAtEnd
    | succ bound ih =>
      intro s tbl hs
      refine (hstep s tbl hs).bind fun round later hround _ => ?_
      cases round with
      | more s => exact ih s later hround
      | done b => exact pure rfl hround
  exact get.skip fun _ _ => hupTo _ s tbl hs

/-! ## Tokens -/

/-- A token that is ahead, and an error among the tokens, stand at allowed
spans. -/
def Sees (allowed : Span → Prop) : Except LexicalError (Option Token) → Prop
  | .ok token? => ∀ token ∈ token?, allowed token.span
  | .error error => allowed error.span

lemma sees_lookAhead (n : Nat) {lexemes : List (Except LexicalError Token)}
    (h : ∀ lexeme ∈ lexemes, may (lexemeSpan lexeme)) : Sees may (lookAhead n lexemes) := by
  fun_induction lookAhead n lexemes with
  | case1 => exact nofun
  | case2 => exact h _ (.head _)
  | case3 token rest =>
    rintro _ ⟨⟩
    exact h _ (.head _)
  | case4 n token rest ih => exact ih (forall_mem_cons.mp h).2

lemma peekAt (n : Nat) : Looks may tbl old (Parser.peekAt n) fun token? => ∀ token ∈ token?, may token.span := by
  refine get.skip fun st hstate => ?_
  have hfound := sees_lookAhead n hstate.2.lexemes
  split
  · rename_i token? heq
    rw [heq] at hfound
    exact pure rfl ⟨rfl, hfound⟩
  · rename_i error heq
    rw [heq] at hfound
    exact fail hfound

lemma peek : Looks may tbl old Parser.peek fun token? => ∀ token ∈ token?, may token.span := peekAt 0

lemma next : Looks may tbl old Parser.next fun token? => ∀ token ∈ token?, may token.span := by
  refine peek.skip fun token? htoken st hs hstate hold => ⟨⟨.refl _ _, hold, ?_⟩, hs, htoken⟩
  exact ⟨fun lexeme hm => hstate.lexemes lexeme (mem_of_mem_tail hm), hstate.stop⟩

lemma expectPeek (expected : String) : Looks may tbl old (Parser.expectPeek expected) fun token =>
    may token.span := by
  refine peek.skip fun token? htoken => ?_
  cases token? with
  | some token => exact pure rfl ⟨rfl, htoken token rfl⟩
  | none => exact failAtEnd

lemma expectNext (expected : String) : Looks may tbl old (Parser.expectNext expected) fun token =>
    may token.span := by
  refine next.skip fun token? htoken => ?_
  cases token? with
  | some token => exact pure rfl ⟨rfl, htoken token rfl⟩
  | none => exact failAtEnd

lemma expect (kind : TokenKind) (expected : String) :
    Looks may tbl old (Parser.expect kind expected) fun token => may token.span := by
  refine (expectNext expected).skip fun token htoken => ?_
  split
  · exact pure rfl ⟨rfl, htoken⟩
  · exact fail htoken

lemma isAt (n : Nat) (kind : TokenKind) : Looks may tbl old (Parser.isAt n kind) := by
  refine (peekAt n).skip fun token? _ => ?_
  cases token? <;> exact pure rfl ⟨rfl, trivial⟩

lemma isNext (kind : TokenKind) : Looks may tbl old (Parser.isNext kind) := isAt 0 kind

lemma eat (kind : TokenKind) : Looks may tbl old (Parser.eat kind) fun token? => ∀ token ∈ token?,
    may token.span := by
  refine (isNext kind).skip fun found _ => ?_
  cases found
  · exact pure rfl ⟨rfl, nofun⟩
  · exact next

lemma eats (kind : TokenKind) : Looks may tbl old (Parser.eats kind) := (eat kind).skip fun _ _ =>
    pure rfl ⟨rfl, trivial⟩

lemma typeAt? (n : Nat) : Looks may tbl old (Parser.typeAt? n) := (peekAt n).skip fun _ _ =>
    pure rfl ⟨rfl, trivial⟩

lemma isCastNext : Looks may tbl old Parser.isCastNext := by
  refine (typeAt? 1).skip fun type? _ => ?_
  split
  · exact isAt 2 _
  · exact pure rfl ⟨rfl, trivial⟩

lemma isDeclarationNext : Looks may tbl old Parser.isDeclarationNext := by
  refine (isNext _).skip fun isConst _ => ?_
  cases isConst
  · refine (typeAt? 0).skip fun type? _ => ?_
    split
    · exact isAt 1 _
    · exact pure rfl ⟨rfl, trivial⟩
  · exact pure rfl ⟨rfl, trivial⟩

/-- Items separated by commas, each made of nothing. -/
lemma commaSeparated {item : Parser α} (inv : List α → SymbolTable → Prop)
    (hitem : ∀ items tbl, inv items tbl → Yields may tbl [] item mid fun a later => inv (items ++ [a]) later)
    (h : inv [] tbl) : Yields may tbl [] (Parser.commaSeparated item) (·.flatMap mid) inv := by
  refine iterate (·.flatMap mid) inv (fun items tbl hinv => (hitem items tbl hinv).more fun a later ha _ => ?_) h
  refine (eats _).skip fun comma _ => ?_
  cases comma <;> exact pure (by simp [Round.held]) ha

/-! ## Symbols and nodes -/

lemma openScope {f : Unit → Parser β} (hf : Yields may tbl.openScope old (f ()) new good) :
    Yields may tbl old (Parser.openScope >>= f) new good := by
  rintro st rfl hstate hold
  exact hf rfl ⟨hstate.lexemes, hstate.stop⟩ hold

lemma closeScope {f : Unit → Parser β} (hf : Yields may tbl.closeScope old (f ()) new good) :
    Yields may tbl old (Parser.closeScope >>= f) new good := by
  rintro st rfl hstate hold
  exact hf rfl ⟨hstate.lexemes, hstate.stop⟩ hold

lemma declare (sym : Symbol) (h : may span) :
    Yields may tbl old (Parser.declare sym span) (fun _ => old) fun id later => id = ⟨tbl.size⟩ ∧
    later = (tbl.declare sym).2 := by
  rintro st rfl hstate hold
  have hrun : (Parser.declare sym span).run st = if st.symbols.isDeclared sym.name then
      .error ⟨.redeclaration sym.name, span⟩ else
      .ok ((st.symbols.declare sym).1, { st with symbols := (st.symbols.declare sym).2 }) := by
    unfold Parser.declare
    cases hdecls : st.symbols.isDeclared sym.name <;> simp [hdecls] <;> rfl
  rw [hrun]
  split
  · exact h
  · exact ⟨⟨.refl _ _, hold, ⟨hstate.lexemes, hstate.stop⟩⟩, SymbolTable.declare_fst _ _, rfl⟩

lemma symbol (id : SymbolId) : Looks may tbl old (Parser.symbol id) fun sym => sym = tbl.get id :=
  get.skip fun _ hst => pure rfl ⟨rfl, hst.1 ▸ rfl⟩

lemma node (form : Form Node) (type : ValueType) (hspan : may span) :
    Gives may tbl form.children (makeNode form type span) (fun node => [node]) fun node => ∃ id,
    node = .create id form type span := by
  rintro st hs hstate hold
  refine ⟨⟨.create _ _ _ _, fun node hm => ?_, ⟨hstate.lexemes, hstate.stop⟩⟩, hs, ⟨st.nodeCount⟩, rfl⟩
  exact mem_singleton.mp hm ▸ .create hold hspan

end Yields

end Parser

end Shading
