import Shading.Diagnostic
import Shading.Token
import Shading.ValueType

/-!
# Parse errors
-/

namespace Shading

/-- Why a text is no program. -/
inductive ParseFault where
  | lexical (fault : LexicalFault)
  | unexpectedToken (expected found : String)
  | unexpectedEnd (expected : String)
  | invalidLiteral (text : String)
  | undeclared (name : String)
  | redeclaration (name : String)
  | typeMismatch (expected found : ValueType)
  | voidVariable
  | notVariable (name : String)
  | invalidOperand (operator : String) (operand : ValueType)
  | invalidOperands (operator : String) (lhs rhs : ValueType)
  | notAssignable
  | constantTarget (name : String)
  | readOnlyTarget (name : String)
  | missingInitializer (name : String)
  | writeOnlyRead (name : String)
  | invalidCast (source target : ValueType)
  | invalidSwizzle (field : String) (type : ValueType)
  | notCallable (name : String)
deriving DecidableEq

namespace ParseFault

def message : ParseFault → String
  | .lexical fault => fault.message
  | .unexpectedToken expected found => "expected " ++ expected ++ " but found `" ++ found ++ "`"
  | .unexpectedEnd expected => "expected " ++ expected ++ " but reached end of file"
  | .invalidLiteral text => "invalid literal `" ++ text ++ "`"
  | .undeclared name => "use of undeclared identifier `" ++ name ++ "`"
  | .redeclaration name => "`" ++ name ++ "` is already declared in this scope"
  | .typeMismatch expected found => "expected " ++ expected.text ++ " but found " ++ found.text
  | .voidVariable => "variables cannot have type void"
  | .notVariable name => "`" ++ name ++ "` is not a variable"
  | .invalidOperand operator operand =>
    "operator `" ++ operator ++ "` cannot be applied to " ++ operand.text
  | .invalidOperands operator lhs rhs =>
    "operator `" ++ operator ++ "` cannot be applied to " ++ lhs.text ++ " and " ++ rhs.text
  | .notAssignable => "expression is not assignable"
  | .constantTarget name => "cannot assign to constant `" ++ name ++ "`"
  | .readOnlyTarget name => "cannot assign to read-only member `" ++ name ++ "`"
  | .missingInitializer name => "constant `" ++ name ++ "` must be initialized"
  | .writeOnlyRead name => "`" ++ name ++ "` is write-only and cannot be read"
  | .invalidCast source target => "cannot cast " ++ source.text ++ " to " ++ target.text
  | .invalidSwizzle field type => "invalid swizzle `." ++ field ++ "` on " ++ type.text
  | .notCallable name => "`" ++ name ++ "` is not a function"

def code : ParseFault → ErrorCode
  | .lexical _ | .unexpectedToken .. | .unexpectedEnd _ | .invalidLiteral _ => .invalidSyntax
  | .undeclared _ => .undeclaredIdentifier
  | .redeclaration _ => .redeclaration
  | .typeMismatch .. | .voidVariable | .notVariable _ | .invalidOperand .. | .invalidOperands .. =>
    .typeMismatch
  | .notAssignable | .constantTarget _ | .readOnlyTarget _ | .missingInitializer _
  | .writeOnlyRead _ => .invalidAssignment
  | .invalidCast .. => .invalidCast
  | .invalidSwizzle .. => .invalidSwizzle
  | .notCallable _ => .notCallable

end ParseFault

structure ParseError where
  fault : ParseFault
  span : Span
deriving DecidableEq

def ParseError.diagnostic (error : ParseError) : Diagnostic :=
  ⟨error.fault.code, some error.span, error.fault.message⟩

end Shading
