import Shading.Parse.Error
import Shading.Token.Lexer
import Shading.Tree.Node

/-!
# Token streams

A parser reads tokens and faults from a list, declares and looks up symbols,
and numbers the nodes it makes.  Looking ahead stops at the first fault, so a
fault is reported as soon as a parser has to look past it.

Grammars are recursive.  The recursion is bounded by the number of tokens:
`Parser.iterate` runs a loop that takes at least one token each round.
-/

namespace Shading

structure ParseState where
  /-- What is still to be read. -/
  lexemes : List (Except LexicalError Token)
  /-- Byte length of the source. -/
  sourceSize : Nat
  symbols : SymbolTable
  nodeCount : Nat

abbrev Parser := StateT ParseState (Except ParseError)

/-- The token `n` places ahead, if no fault stands before it. -/
def lookAhead : (n : Nat) → List (Except LexicalError Token) → Except LexicalError (Option Token)
  | _, [] => .ok none
  | _, .error error :: _ => .error error
  | 0, .ok token :: _ => .ok (some token)
  | n + 1, .ok _ :: rest => lookAhead n rest

namespace Parser

variable {α σ : Type}

def fail (fault : ParseFault) (span : Span) : Parser α := throw ⟨fault, span⟩

/-! ## Tokens -/

def peekAt (n : Nat) : Parser (Option Token) := do
  match lookAhead n (← get).lexemes with
  | .ok token? => return token?
  | .error error => fail (.lexical error.fault) error.span

def peek : Parser (Option Token) := peekAt 0

/-- Takes the next token. -/
def next : Parser (Option Token) := do
  let token? ← peek
  modify fun state => { state with lexemes := state.lexemes.tail }
  return token?

def failAtEnd (expected : String) : Parser α := do
  let size := (← get).sourceSize
  fail (.unexpectedEnd expected) ⟨size, size⟩

def unexpected (token : Token) (expected : String) : Parser α :=
  fail (.unexpectedToken expected token.text) token.span

def expectPeek (expected : String) : Parser Token := do
  match ← peek with
  | some token => return token
  | none => failAtEnd expected

def expectNext (expected : String) : Parser Token := do
  match ← next with
  | some token => return token
  | none => failAtEnd expected

/-- Takes the next token, which has to be of a given kind. -/
def expect (kind : TokenKind) (expected : String) : Parser Token := do
  let token ← expectNext expected
  if token.kind = kind then return token else unexpected token expected

def expectKeyword (word : Keyword) : Parser Token := expect (.keyword word) ("`" ++ word.text ++ "`")

def expectSemicolon : Parser Token := expect .semicolon "`;`"

def expectOpenParen : Parser Token := expect .openParen "`(`"

def expectCloseParen : Parser Token := expect .closeParen "`)`"

def isAt (n : Nat) (kind : TokenKind) : Parser Bool := do
  match ← peekAt n with
  | some token => return token.kind = kind
  | none => return false

def isNext (kind : TokenKind) : Parser Bool := isAt 0 kind

/-- Takes the next token if it is of a given kind. -/
def eat (kind : TokenKind) : Parser (Option Token) := do
  if ← isNext kind then next else return none

def eats (kind : TokenKind) : Parser Bool := return (← eat kind).isSome

/-- The type that a token names. -/
def tokenType? (token : Token) : Option ValueType :=
  if token.kind = .identifier then ValueType.ofText? token.text else none

def typeAt? (n : Nat) : Parser (Option ValueType) := return (← peekAt n).bind tokenType?

/-- Takes a type and gives its span. -/
def expectType : Parser (ValueType × Span) := do
  let token ← expectNext "type"
  match tokenType? token with
  | some type => return (type, token.span)
  | none => unexpected token "type"

/-! ## Symbols and nodes -/

def openScope : Parser Unit := modify fun state => { state with symbols := state.symbols.openScope }

def closeScope : Parser Unit := modify fun state => { state with symbols := state.symbols.closeScope }

/-- Declares a symbol that is new in the innermost scope. -/
def declare (symbol : Symbol) (span : Span) : Parser SymbolId := do
  let state ← get
  if state.symbols.isDeclared symbol.name then
    fail (.redeclaration symbol.name) span
  else
    let (id, symbols) := state.symbols.declare symbol
    set { state with symbols }
    return id

def symbol (id : SymbolId) : Parser Symbol := return (← get).symbols.get id

/-- A number for a new node. -/
def freshId : Parser NodeId := do
  let state ← get
  set { state with nodeCount := state.nodeCount + 1 }
  return ⟨state.nodeCount⟩

def makeNode (form : Form Node) (type : ValueType) (span : Span) : Parser Node :=
  return Node.create (← freshId) form type span

/-! ## Loops -/

/-- What a round of a loop ends with. -/
inductive Round (σ α : Type) where
  | more (state : σ)
  | done (result : α)

/-- Runs rounds until one is done; `bound` limits their number. -/
def iterateUpTo (step : σ → Parser (Round σ α)) : (bound : Nat) → σ → Parser α
  | 0, _ => failAtEnd "token"
  | bound + 1, state => do
    match ← step state with
    | .more state => iterateUpTo step bound state
    | .done result => return result

/-- Runs rounds until one is done.  All other rounds take at least one token,
so there are no more rounds than tokens and one. -/
def iterate (step : σ → Parser (Round σ α)) (state : σ) : Parser α := do
  iterateUpTo step ((← get).lexemes.length + 1) state

/-- Items separated by commas, at least one. -/
def commaSeparated (item : Parser α) : Parser (List α) :=
  iterate (fun items => do
    let items := items ++ [← item]
    return if ← eats .comma then .more items else .done items) []

end Parser

end Shading
