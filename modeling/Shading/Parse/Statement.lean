import Shading.Parse.Expression

/-!
# Statements

Bodies of branches and loops are always blocks; one that is a single statement
is given a block and a scope of its own.
-/

namespace Shading

namespace Parser

variable (inner : Grammar)

/-- One statement of a block or its end. -/
def blockItem (statements : List Node) : Parser (Round (List Node) (List Node × Token)) := do
  match ← eat .closeBrace with
  | some close => return .done (statements, close)
  | none => return .more (statements ++ (← inner.statement))

def block : Parser Node := do
  let start ← expect .openBrace "`\x7b`"
  openScope
  let (statements, close) ← iterate (blockItem inner) []
  closeScope
  makeNode (.block statements) .void (start.span.join close.span)

/-- Body of a branch or loop. -/
def body : Parser Node := do
  if ← isNext .openBrace then
    block inner
  else
    let start := (← expectPeek "statement").span
    openScope
    let statements ← inner.statement
    closeScope
    let span := statements.getLast?.elim start (start.join ·.span)
    makeNode (.block statements) .void span

def isDeclarationNext : Parser Bool := do
  if ← isNext (.keyword .kwConst) then
    return true
  else if (← typeAt? 0).isSome then
    isAt 1 .identifier
  else
    return false

/-- One name of a declaration with its initializer.  The name becomes visible
behind the initializer. -/
def declarator (type : ValueType) (isConst : Bool) (start : Span) : Parser Node := do
  let name ← expect .identifier "variable name"
  let initializer? ← do
    if ← eats .equals then
      pure (some (← coerce (← expression inner) type))
    else if isConst then
      fail (.missingInitializer name.text) name.span
    else
      pure none
  let id ← declare ⟨name.text, type, .localVariable, isConst⟩ name.span
  let stop := initializer?.elim name.span (·.span)
  makeNode (.declare id initializer?) .void (start.join stop)

/-- `[const] type name [= e], ...` -/
def declaration : Parser (List Node) := do
  let const? ← eat (.keyword .kwConst)
  let (type, typeSpan) ← expectType
  if type.isVoid then
    fail .voidVariable typeSpan
  else
    commaSeparated (declarator inner type const?.isSome (const?.elim typeSpan (·.span)))

def requireBool (node : Node) : Parser Unit := do
  if node.type ≠ .bool then fail (.typeMismatch .bool node.type) node.span

/-- `(e)` with a scalar `bool`. -/
def condition : Parser Node := do
  let _ ← expectOpenParen
  let expression ← expression inner
  let _ ← expectCloseParen
  requireBool expression
  return expression

/-- One arm behind `if` or `else if`, and the `else` arm if it follows.  Gives
the arms and the span of the last. -/
def branchArms (arms : List Node) : Parser (Round (List Node) (List Node × Span)) := do
  let condition ← condition inner
  let taken ← body inner
  let span := condition.span.join taken.span
  let arms := arms ++ [← makeNode (.arm (some condition) taken) .void span]
  if !(← eats (.keyword .kwElse)) then
    return .done (arms, span)
  else if ← eats (.keyword .kwIf) then
    return .more arms
  else
    let otherwise ← body inner
    let last ← makeNode (.arm none otherwise) .void otherwise.span
    return .done (arms ++ [last], otherwise.span)

def branch : Parser Node := do
  let start ← expectKeyword .kwIf
  let (arms, stop) ← iterate (branchArms inner) []
  makeNode (.branch arms) .void (start.span.join stop)

def whileStatement : Parser Node := do
  let start ← expectKeyword .kwWhile
  let condition ← condition inner
  let body ← body inner
  makeNode (.loop .whileLoop none (some condition) none body) .void (start.span.join body.span)

def doWhileStatement : Parser Node := do
  let start ← expectKeyword .kwDo
  let body ← body inner
  let _ ← expectKeyword .kwWhile
  let condition ← condition inner
  let stop ← expectSemicolon
  makeNode (.loop .doWhile none (some condition) none body) .void (start.span.join stop.span)

/-- What stands before the first `;` of a `for`.  Several declarations are put
in a block. -/
def forInit (start : Span) : Parser (Option Node) := do
  if ← isNext .semicolon then
    return none
  else if ← isDeclarationNext then
    match ← declaration inner with
    | [declaration] => return some declaration
    | declarations =>
      let span := match declarations.map (·.span) with
        | [] => start
        | first :: rest => rest.foldl Span.join first
      return some (← makeNode (.block declarations) .void span)
  else
    return some (← expression inner)

def forCondition : Parser (Option Node) := do
  if ← isNext .semicolon then
    return none
  else
    let condition ← expression inner
    requireBool condition
    return some condition

def forStep : Parser (Option Node) := do
  if ← isNext .closeParen then return none else return some (← expression inner)

def forStatement : Parser Node := do
  let start ← expectKeyword .kwFor
  let _ ← expectOpenParen
  openScope
  let init? ← forInit inner start.span
  let _ ← expectSemicolon
  let condition? ← forCondition inner
  let _ ← expectSemicolon
  let step? ← forStep inner
  let _ ← expectCloseParen
  let body ← body inner
  closeScope
  makeNode (.loop .forLoop init? condition? step? body) .void (start.span.join body.span)

def returnStatement : Parser Node := do
  let start ← expectKeyword .kwReturn
  let value? ← do
    if ← isNext .semicolon then pure none else pure (some (← expression inner))
  let stop ← expectSemicolon
  makeNode (.returnValue value?) .void (start.span.join stop.span)

/-- `break;` or `continue;`. -/
def jump (form : Form Node) (start : Token) : Parser Node := do
  let _ ← next
  let stop ← expectSemicolon
  makeNode form .void (start.span.join stop.span)

def statement : Parser (List Node) := do
  let token ← expectPeek "statement"
  match token.kind with
  | .openBrace => return [← block inner]
  | .semicolon =>
    let _ ← next
    return []
  | .keyword .kwIf => return [← branch inner]
  | .keyword .kwWhile => return [← whileStatement inner]
  | .keyword .kwFor => return [← forStatement inner]
  | .keyword .kwDo => return [← doWhileStatement inner]
  | .keyword .kwBreak => return [← jump .breakLoop token]
  | .keyword .kwContinue => return [← jump .continueLoop token]
  | .keyword .kwReturn => return [← returnStatement inner]
  | _ =>
    let statements ← do
      if ← isDeclarationNext then declaration inner else pure [← expression inner]
    let _ ← expectSemicolon
    return statements

end Parser

end Shading
