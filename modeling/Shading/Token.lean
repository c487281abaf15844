import Shading.Text.Span

/-!
# Tokens

The kinds of tokens, the spellings of operators and delimiters, and the
classes of operators.
-/

namespace Shading

inductive Keyword where
  | kwIf
  | kwElse
  | kwFor
  | kwWhile
  | kwDo
  | kwBreak
  | kwContinue
  | kwReturn
  | kwConst
deriving DecidableEq

namespace Keyword

def all : List Keyword :=
  [.kwIf, .kwElse, .kwFor, .kwWhile, .kwDo, .kwBreak, .kwContinue, .kwReturn, .kwConst]

def text : Keyword → String
  | .kwIf => "if"
  | .kwElse => "else"
  | .kwFor => "for"
  | .kwWhile => "while"
  | .kwDo => "do"
  | .kwBreak => "break"
  | .kwContinue => "continue"
  | .kwReturn => "return"
  | .kwConst => "const"

def ofText? (text : String) : Option Keyword := all.find? (·.text == text)

def name : Keyword → String
  | .kwIf => "If"
  | .kwElse => "Else"
  | .kwFor => "For"
  | .kwWhile => "While"
  | .kwDo => "Do"
  | .kwBreak => "Break"
  | .kwContinue => "Continue"
  | .kwReturn => "Return"
  | .kwConst => "Const"

end Keyword

inductive TokenKind where
  | keyword (word : Keyword)
  | identifier
  | booleanLiteral
  | integerLiteral
  | floatLiteral
  | openParen
  | closeParen
  | openBrace
  | closeBrace
  | semicolon
  | comma
  | dot
  | bang
  | tilde
  | increment
  | decrement
  | minus
  | plus
  | asterisk
  | divide
  | modulus
  | logicalAnd
  | logicalOr
  | bitwiseXor
  | bitwiseAnd
  | bitwiseOr
  | shiftLeft
  | shiftRight
  | doubleEquals
  | notEquals
  | lessThan
  | lessThanOrEqualTo
  | greaterThan
  | greaterThanOrEqualTo
  | equals
  | plusEquals
  | minusEquals
  | multiplyEquals
  | divideEquals
  | modulusEquals
  | bitwiseXorEquals
  | bitwiseAndEquals
  | bitwiseOrEquals
  | shiftLeftEquals
  | shiftRightEquals
deriving DecidableEq

namespace TokenKind

/-- Name of a kind in listings of tokens. -/
def name : TokenKind → String
  | .keyword word => "Keyword(" ++ word.name ++ ")"
  | .identifier => "Identifier"
  | .booleanLiteral => "BooleanLiteral"
  | .integerLiteral => "IntegerLiteral"
  | .floatLiteral => "FloatLiteral"
  | .openParen => "OpenParen"
  | .closeParen => "CloseParen"
  | .openBrace => "OpenBrace"
  | .closeBrace => "CloseBrace"
  | .semicolon => "Semicolon"
  | .comma => "Comma"
  | .dot => "Dot"
  | .bang => "Bang"
  | .tilde => "Tilde"
  | .increment => "Increment"
  | .decrement => "Decrement"
  | .minus => "Minus"
  | .plus => "Plus"
  | .asterisk => "Asterisk"
  | .divide => "Divide"
  | .modulus => "Modulus"
  | .logicalAnd => "LogicalAnd"
  | .logicalOr => "LogicalOr"
  | .bitwiseXor => "BitwiseXor"
  | .bitwiseAnd => "BitwiseAnd"
  | .bitwiseOr => "BitwiseOr"
  | .shiftLeft => "ShiftLeft"
  | .shiftRight => "ShiftRight"
  | .doubleEquals => "DoubleEquals"
  | .notEquals => "NotEquals"
  | .lessThan => "LessThan"
  | .lessThanOrEqualTo => "LessThanOrEqualTo"
  | .greaterThan => "GreaterThan"
  | .greaterThanOrEqualTo => "GreaterThanOrEqualTo"
  | .equals => "Equals"
  | .plusEquals => "PlusEquals"
  | .minusEquals => "MinusEquals"
  | .multiplyEquals => "MultiplyEquals"
  | .divideEquals => "DivideEquals"
  | .modulusEquals => "ModulusEquals"
  | .bitwiseXorEquals => "BitwiseXorEquals"
  | .bitwiseAndEquals => "BitwiseAndEquals"
  | .bitwiseOrEquals => "BitwiseOrEquals"
  | .shiftLeftEquals => "ShiftLeftEquals"
  | .shiftRightEquals => "ShiftRightEquals"

/-- Spellings of operators and delimiters, longer ones first. -/
def spellings : List (String × TokenKind) :=
  [("<<=", .shiftLeftEquals), (">>=", .shiftRightEquals),
    ("++", .increment), ("--", .decrement), ("==", .doubleEquals), ("!=", .notEquals),
    ("<=", .lessThanOrEqualTo), (">=", .greaterThanOrEqualTo), ("+=", .plusEquals),
    ("-=", .minusEquals), ("*=", .multiplyEquals), ("/=", .divideEquals),
    ("%=", .modulusEquals), ("&=", .bitwiseAndEquals), ("|=", .bitwiseOrEquals),
    ("^=", .bitwiseXorEquals), ("<<", .shiftLeft), (">>", .shiftRight),
    ("&&", .logicalAnd), ("||", .logicalOr),
    ("(", .openParen), (")", .closeParen), ("\x7b", .openBrace), ("\x7d", .closeBrace),
    (";", .semicolon), (",", .comma), (".", .dot), ("!", .bang), ("~", .tilde),
    ("*", .asterisk), ("-", .minus), ("=", .equals), ("+", .plus), ("/", .divide),
    ("%", .modulus), ("^", .bitwiseXor), ("&", .bitwiseAnd), ("|", .bitwiseOr),
    ("<", .lessThan), (">", .greaterThan)]

def isAssignment : TokenKind → Bool
  | .equals | .plusEquals | .minusEquals | .multiplyEquals | .divideEquals | .modulusEquals
  | .bitwiseXorEquals | .bitwiseAndEquals | .bitwiseOrEquals | .shiftLeftEquals
  | .shiftRightEquals => true
  | _ => false

def isEquality : TokenKind → Bool
  | .notEquals | .doubleEquals => true
  | _ => false

def isRelational : TokenKind → Bool
  | .lessThan | .lessThanOrEqualTo | .greaterThan | .greaterThanOrEqualTo => true
  | _ => false

def isShift : TokenKind → Bool
  | .shiftLeft | .shiftRight => true
  | _ => false

def isTerm : TokenKind → Bool
  | .plus | .minus => true
  | _ => false

def isFactor : TokenKind → Bool
  | .asterisk | .divide | .modulus => true
  | _ => false

def isUnary : TokenKind → Bool
  | .plus | .minus | .bang | .tilde | .increment | .decrement => true
  | _ => false

end TokenKind

/-- A token with the text it was read from. -/
structure Token where
  kind : TokenKind
  span : Span
  text : String
deriving DecidableEq

/-- Why a text is no sequence of tokens. -/
inductive LexicalFault where
  | unterminatedComment
  | missingExponent
  | invalidSuffix
  | nonAscii (c : Char)
  | unexpected (c : Char)
deriving DecidableEq

def LexicalFault.message : LexicalFault → String
  | .unterminatedComment => "Unterminated block comment"
  | .missingExponent => "Expected digits in float exponent"
  | .invalidSuffix => "Invalid suffix on numeric literal"
  | .nonAscii c => "Unexpected non-ascii character in stream: `" ++ c.toString ++ "`"
  | .unexpected c => "Unexpected character in stream: `" ++ c.toString ++ "`"

structure LexicalError where
  fault : LexicalFault
  span : Span
deriving DecidableEq

end Shading
