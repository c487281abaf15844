import Shading.Diagnostic
import Shading.Options
import Shading.Symbol
import Shading.Value

/-!
# Simplifying: errors and state

A pass over a program checks returns, jumps and calls, and simplifies it on its
way.  The state holds what is known where the pass stands: the values of
locals, whether the next statement can be reached and which loops are open.

There are two passes.  One takes a syntax tree and gives a new one
(`Program.simplify`), the other changes numbered nodes where they are
(`Forest.simplify`).  They share this state and the rules of
`Shading.Simplify.Rule`.
-/

namespace Shading

/-- Why a program is rejected. -/
inductive SimplifyFault where
  | typeMismatch (expected found : ValueType)
  | invalidArguments (function : String) (arguments : List ValueType)
  | divisionByZero
  | missingReturn (function : String)
  | missingReturnValue (function : String) (expected : ValueType)
  | unexpectedReturnValue (function : String)
  | jumpOutsideLoop (keyword : String)
  | arityMismatch (function : String) (expected found : Nat)
  | notCallable (name : String)
deriving DecidableEq

namespace SimplifyFault

def message : SimplifyFault → String
  | .typeMismatch expected found =>
    "mismatched types, expected `" ++ expected.text ++ "` but found `" ++ found.text ++ "`"
  | .invalidArguments function arguments =>
    "no overload of `" ++ function ++ "` accepts arguments (" ++
      ", ".intercalate (arguments.map (·.text)) ++ ")"
  | .divisionByZero => "division by zero in constant expression"
  | .missingReturn function => "not every path in `" ++ function ++ "` returns a value"
  | .missingReturnValue function expected =>
    "`" ++ function ++ "` must return a value of type `" ++ expected.text ++ "`"
  | .unexpectedReturnValue function => "`" ++ function ++ "` returns void but a value was returned"
  | .jumpOutsideLoop keyword => "`" ++ keyword ++ "` outside of a loop"
  | .arityMismatch function expected found =>
    "`" ++ function ++ "` takes " ++ toString expected ++ " argument(s) but " ++ toString found ++
      " were supplied"
  | .notCallable name => "`" ++ name ++ "` is not a function"

def code : SimplifyFault → ErrorCode
  | .typeMismatch .. | .invalidArguments .. => .typeMismatch
  | .divisionByZero => .divisionByZero
  | .missingReturn _ => .missingReturn
  | .missingReturnValue .. => .missingReturnValue
  | .unexpectedReturnValue _ => .unexpectedReturnValue
  | .jumpOutsideLoop _ => .jumpOutsideLoop
  | .arityMismatch .. => .arityMismatch
  | .notCallable _ => .notCallable

end SimplifyFault

structure SimplifyError where
  fault : SimplifyFault
  span : Span
deriving DecidableEq

def SimplifyError.diagnostic (error : SimplifyError) : Diagnostic :=
  ⟨error.fault.code, some error.span, error.fault.message⟩

/-- What the pass learned about a function. -/
structure FunctionSummary where
  symbol : SymbolId
  /-- No path falls off the end of the body. -/
  endsUnreachable : Bool
  changes : Nat
deriving DecidableEq

/-- How the body of a loop leaves it. -/
structure LoopExits where
  breaks : Bool
  continues : Bool

/-- State of a pass that keeps its nodes in a `σ`. -/
structure SimplifyState (σ : Type) where
  nodes : σ
  changes : Nat
  /-- Known values of locals. -/
  constants : List (SymbolId × Value)
  /-- Open loops, innermost first. -/
  loops : List LoopExits
  /-- Control never reaches the next statement. -/
  unreachable : Bool
  summaries : List FunctionSummary

/-- Nothing is known yet. -/
def SimplifyState.start {σ : Type} (nodes : σ) : SimplifyState σ := ⟨nodes, 0, [], [], false, []⟩

/-- An error stops the pass and leaves the state as it is. -/
abbrev Simplify (σ : Type) := ExceptT SimplifyError (StateM (SimplifyState σ))

/-- What stays the same during a pass. -/
structure SimplifyEnv where
  options : Options
  symbols : SymbolTable

namespace Simplify

variable {σ α : Type}

def fail (span : Span) (fault : SimplifyFault) : Simplify σ α := throw ⟨fault, span⟩

def countChange : Simplify σ Unit := modify fun state => { state with changes := state.changes + 1 }

def setUnreachable (unreachable : Bool) : Simplify σ Unit :=
  modify fun state => { state with unreachable }

def isUnreachable : Simplify σ Bool := return (← get).unreachable

/-! ## Known values -/

def known? (symbol : SymbolId) : Simplify σ (Option Value) := return (← get).constants.lookup symbol

def forget (symbol : SymbolId) : Simplify σ Unit :=
  modify fun state => { state with constants := state.constants.filter (·.1 ≠ symbol) }

def remember (symbol : SymbolId) (value : Value) : Simplify σ Unit := do
  forget symbol
  modify fun state => { state with constants := (symbol, value) :: state.constants }

def forgetAll (symbols : List SymbolId) : Simplify σ Unit := symbols.forM forget

/-- Notes the value a symbol has after an assignment.  Assignments that may
not run leave it unknown. -/
def recordAssignment (env : SimplifyEnv) (conditional : Bool) (symbol : SymbolId)
    (value? : Option Value) : Simplify σ Unit :=
  match value? with
  | some value =>
    if env.options.fold && !conditional && (env.symbols.get symbol).isLocal then
      remember symbol value
    else
      forget symbol
  | none => forget symbol

/-- Notes the value a declaration gives its symbol.  Whenever control passes
the declaration the symbol has this value, so it never counts as conditional. -/
def recordDeclaration (env : SimplifyEnv) (symbol : SymbolId) (value? : Option Value) :
    Simplify σ Unit :=
  recordAssignment env false symbol value?

/-! ## Loops and functions -/

/-- Starts a round of a loop. -/
def openLoop : Simplify σ Unit :=
  modify fun state => { state with loops := ⟨false, false⟩ :: state.loops, unreachable := false }

/-- Ends the innermost loop and tells how its body left it. -/
def closeLoop : Simplify σ LoopExits := do
  let state ← get
  set { state with loops := state.loops.tail }
  return state.loops.head?.getD ⟨false, false⟩

/-- `break` or `continue`. -/
def jump (span : Span) (keyword : String) (note : LoopExits → LoopExits) : Simplify σ Unit := do
  match (← get).loops with
  | [] => fail span (.jumpOutsideLoop keyword)
  | exits :: rest => modify fun state => { state with loops := note exits :: rest, unreachable := true }

def breakLoop (span : Span) : Simplify σ Unit := jump span "break" ({ · with breaks := true })

def continueLoop (span : Span) : Simplify σ Unit := jump span "continue" ({ · with continues := true })

/-- Starts a function: nothing is known and no loop is open. -/
def openFunction : Simplify σ Unit :=
  modify fun state => { state with constants := [], loops := [], unreachable := false }

/-- Adds what was learned about a function.  `before` counts the changes up to
its start and `removed` the dead stores taken out at its end. -/
def closeFunction (before : Nat) (symbol : SymbolId) (endsUnreachable : Bool) (removed : Nat) :
    Simplify σ Unit :=
  modify fun state =>
    let changes := state.changes + removed
    { state with
      changes
      summaries := state.summaries ++ [⟨symbol, endsUnreachable, changes - before⟩] }

end Simplify

end Shading
