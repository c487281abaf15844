import Shading.Parse.Statement
import Shading.Tree.Usage

/-!
# Programs

A program is a sequence of functions.  `Grammar.ofDepth` ties the recursion of
the grammar: constructs can nest no deeper than there are tokens, so a depth
of the number of tokens and one suffices.
-/

namespace Shading

/-- The grammar for constructs nested at most `depth` deep. -/
def Grammar.ofDepth : (depth : Nat) → Grammar
  | 0 => ⟨Parser.failAtEnd "statement", Parser.failAtEnd "expression",
      fun _ => Parser.failAtEnd "expression", Parser.failAtEnd "expression"⟩
  | depth + 1 =>
    let inner := ofDepth depth
    ⟨Parser.statement inner, Parser.expression inner, Parser.binary inner, Parser.unary inner⟩

namespace Parser

variable (inner : Grammar)

/-- A parameter of a function with the span of its name. -/
structure Parameter where
  name : String
  type : ValueType
  span : Span

def parameter : Parser Parameter := do
  let (type, span) ← expectType
  if type.isVoid then
    fail .voidVariable span
  else
    let name ← expect .identifier "parameter name"
    return ⟨name.text, type, name.span⟩

/-- Skips `void` in `(void)`. -/
def skipVoid : Parser Unit := do
  if (← typeAt? 0) = some .void then
    if ← isAt 1 .closeParen then
      let _ ← next

/-- The part of `(...)` behind `(`. -/
def parameters : Parser (List Parameter) := do
  skipVoid
  let parameters ← do
    if ← isNext .closeParen then pure [] else commaSeparated parameter
  let _ ← expectCloseParen
  return parameters

/-- Fails at the first use below `node` that reads a symbol that cannot be
read. -/
def checkReadable (node : Node) : Parser Unit := do
  let symbols := (← get).symbols
  match (node.uses .read).find? fun use => use.usage.reads && !(symbols.get use.symbol).isReadable with
  | some use => fail (.writeOnlyRead (symbols.get use.symbol).name) use.span
  | none => return ()

/-- `type name(parameters) block`.  The function is declared before its body,
which may call it. -/
def function : Parser Node := do
  let (result, typeSpan) ← expectType
  let name ← expect .identifier "function name"
  let _ ← expectOpenParen
  let parameters ← parameters
  let signature : Signature := ⟨parameters.map (·.type), result⟩
  let id ← declare ⟨name.text, result, .function signature, true⟩ name.span
  openScope
  let ids ← parameters.mapM fun p => declare ⟨p.name, p.type, .parameter, false⟩ p.span
  let body ← block inner
  closeScope
  checkReadable body
  makeNode (.function id ids body) result (typeSpan.join body.span)

def functions : Parser (List Node) :=
  iterate (fun functions => do
    match ← peek with
    | none => return .done functions
    | some _ => return .more (functions ++ [← function inner])) []

end Parser

namespace Program

/-- Parses a source against the members of a layout. -/
def parse (source : Source) (layout : Layout) : Except ParseError Program := do
  let program := empty (.ofLayout layout)
  let lexemes := Shading.lexemes source.contents
  let start : ParseState := ⟨lexemes, source.size, program.symbols, program.nodeCount⟩
  let (functions, state) ← (Parser.functions (.ofDepth (lexemes.length + 1))).run start
  return ⟨program.root.withForm (.program functions), state.symbols, state.nodeCount⟩

end Program

end Shading
