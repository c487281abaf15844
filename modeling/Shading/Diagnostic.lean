import Shading.Text.Source

/-!
# Diagnostics

What a failed compile says: a stable code, a message and, if it is about some
part of the text, a span.
-/

namespace Shading

inductive ErrorCode where
  | invalidSyntax
  | undeclaredIdentifier
  | redeclaration
  | typeMismatch
  | invalidAssignment
  | invalidCast
  | invalidSwizzle
  | notCallable
  | arityMismatch
  | divisionByZero
  | missingReturn
  | missingReturnValue
  | unexpectedReturnValue
  | jumpOutsideLoop
  | unsupportedConstruct
  | invalidState
  | entryBlockExists
  | outOfMemory
  | invalidLayout
  | io
deriving DecidableEq

namespace ErrorCode

def name : ErrorCode → String
  | .invalidSyntax => "invalid_syntax"
  | .undeclaredIdentifier => "undeclared_identifier"
  | .redeclaration => "redeclaration"
  | .typeMismatch => "type_mismatch"
  | .invalidAssignment => "invalid_assignment"
  | .invalidCast => "invalid_cast"
  | .invalidSwizzle => "invalid_swizzle"
  | .notCallable => "not_callable"
  | .arityMismatch => "arity_mismatch"
  | .divisionByZero => "division_by_zero"
  | .missingReturn => "missing_return"
  | .missingReturnValue => "missing_return_value"
  | .unexpectedReturnValue => "unexpected_return_value"
  | .jumpOutsideLoop => "jump_outside_loop"
  | .unsupportedConstruct => "unsupported_construct"
  | .invalidState => "invalid_state"
  | .entryBlockExists => "entry_block_exists"
  | .outOfMemory => "out_of_memory"
  | .invalidLayout => "invalid_layout"
  | .io => "io"

def all : List ErrorCode :=
  [invalidSyntax, undeclaredIdentifier, redeclaration, typeMismatch, invalidAssignment, invalidCast,
    invalidSwizzle, notCallable, arityMismatch, divisionByZero, missingReturn, missingReturnValue,
    unexpectedReturnValue, jumpOutsideLoop, unsupportedConstruct, invalidState, entryBlockExists,
    outOfMemory, invalidLayout, io]

def ofName? (name : String) : Option ErrorCode := all.find? (·.name == name)

end ErrorCode

structure Diagnostic where
  code : ErrorCode
  span? : Option Span
  message : String
deriving DecidableEq

/-- First words of a report. -/
def errorHeading (code : ErrorCode) (color : Bool) : String :=
  Paint.redBold.apply color "error" ++ "[" ++ code.name ++ "]: "

namespace Diagnostic

/-- Where the diagnostic is about: a position, or only the name of the text. -/
def location (diagnostic : Diagnostic) (source : Source) : String :=
  diagnostic.span?.elim source.origin.text source.location

/-- The report for a reader: one line and, given a span, the marked source. -/
def render (diagnostic : Diagnostic) (source : Source) (color : Bool) : String :=
  errorHeading diagnostic.code color ++ diagnostic.message ++ " " ++
    Paint.white.apply color ("(at " ++ diagnostic.location source ++ ")") ++ "\n" ++
    diagnostic.span?.elim "" (source.highlight · color)

end Diagnostic

/-! ## Reporting -/

/-- Work that can fail and reports diagnostics on its way, oldest first. -/
abbrev Reporting (ε : Type) := ExceptT ε (StateM (List Diagnostic))

namespace Reporting

variable {ε α : Type}

def report (diagnostic : Diagnostic) : Reporting ε Unit := modify (· ++ [diagnostic])

/-- Passes a result on; an error is reported first. -/
def ofResult (diagnostic : ε → Diagnostic) : Except ε α → Reporting ε α
  | .ok a => return a
  | .error error => do
    report (diagnostic error)
    throw error

/-- The result, and all that was reported. -/
def outcome (work : Reporting ε α) : Except ε α × List Diagnostic := work.run.run []

end Reporting

end Shading
