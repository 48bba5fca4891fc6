import StateGuard.Span

/-!
# Tokens

The lexical elements of the checked language. Keywords are words like any other: the grammar
decides by context. A closing angle bracket never joins another one, so that nested type argument
lists close one at a time.
-/

namespace StateGuard

/-- Punctuation and operators. -/
inductive Symbol where
  | leftParen
  | rightParen
  | leftBrace
  | rightBrace
  | comma
  | semicolon
  | colon
  | dot
  | questionDot
  | question
  | arrow
  | assign
  | bang
  | eqEq
  | notEq
  | andAnd
  | orOr
  | lt
  | ltE
  | gt
  | gtE
  | plus
  | minus
  | star
  | slash
  deriving DecidableEq, Repr, Inhabited

/-- The spelling of a symbol. -/
def Symbol.spelling : Symbol → String
  | .leftParen => "("
  | .rightParen => ")"
  | .leftBrace => "\x7b"
  | .rightBrace => "\x7d"
  | .comma => ","
  | .semicolon => ";"
  | .colon => ":"
  | .dot => "."
  | .questionDot => "?."
  | .question => "?"
  | .arrow => "=>"
  | .assign => "="
  | .bang => "!"
  | .eqEq => "=="
  | .notEq => "!="
  | .andAnd => "&&"
  | .orOr => "||"
  | .lt => "<"
  | .ltE => "<="
  | .gt => ">"
  | .gtE => ">="
  | .plus => "+"
  | .minus => "-"
  | .star => "*"
  | .slash => "/"

/-- What a token says, without its place. -/
inductive Lexeme where
  | word (name : String)
  | int (value : Int)
  | text (value : String)
  | symbol (which : Symbol)
  deriving DecidableEq, Repr, Inhabited

namespace Lexeme

/-- How error messages name a lexeme. -/
def describe : Lexeme → String
  | .word name => "`" ++ name ++ "`"
  | .int value => "`" ++ toString value ++ "`"
  | .text _ => "string literal"
  | .symbol which => "`" ++ which.spelling ++ "`"

/-- How error messages name the next lexeme, which is absent at the end. -/
def describeNext : Option Lexeme → String
  | some lexeme => lexeme.describe
  | none => "end of input"

end Lexeme

/-- A lexeme with its place. -/
structure Token where
  lexeme : Lexeme
  span : Span
  deriving DecidableEq, Repr, Inhabited

/-- The tokens of a text, and the position of its end. -/
structure TokenStream where
  tokens : List Token
  stop : Position
  deriving DecidableEq, Repr, Inhabited

end StateGuard
