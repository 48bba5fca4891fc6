import StateGuard.Source.Token

/-!
# Errors of the grammar

Why a sequence of lexemes is not a program, and at which of them that shows.
-/

namespace StateGuard

/-- What the grammar asks for at some place. -/
inductive Wanted where
  | symbol (which : Symbol)
  | expression
  | typeName
  | memberName
  | parameterName
  | variableName
  | lambdaParameter
  | outVariableName
  deriving DecidableEq, Repr, Inhabited

/-- How error messages name what is asked for. -/
def Wanted.describe : Wanted → String
  | .symbol which => (Lexeme.symbol which).describe
  | .expression => "expression"
  | .typeName => "type name"
  | .memberName => "member name"
  | .parameterName => "parameter name"
  | .variableName => "variable name"
  | .lambdaParameter => "lambda parameter"
  | .outVariableName => "out variable name"

/-- Why lexemes do not form a program. -/
inductive ParseCause where
  | expected (what : Wanted) (found : Option Lexeme)
  | unexpectedKeyword (word : String)
  | unsupportedPattern (found : Option Lexeme)
  | unclosedBlock
  | missingParameters (method : String)
  deriving DecidableEq, Repr, Inhabited

/-- The wording of a grammatical error. -/
def ParseCause.message : ParseCause → String
  | .expected what found =>
    "expected " ++ what.describe ++ ", found " ++ Lexeme.describeNext found
  | .unexpectedKeyword word => "unexpected keyword `" ++ word ++ "`"
  | .unsupportedPattern found => "unsupported pattern " ++ Lexeme.describeNext found
  | .unclosedBlock => "unclosed block"
  | .missingParameters method => "expected `(` after method name `" ++ method ++ "`"

/-- A grammatical error and where it shows. -/
structure ParseError where
  cause : ParseCause
  /-- The number of lexemes from the place of the error to the end. -/
  left : Nat
  deriving DecidableEq, Repr, Inhabited

end StateGuard
