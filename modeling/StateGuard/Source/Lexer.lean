import StateGuard.Fault
import StateGuard.Source.Token
import StateGuard.Text.Blank
import StateGuard.Text.Numeric
import StateGuard.Text.Template
import StateGuard.Word

/-!
# Lexical analysis

A text is cut into blank stretches, comments and lexemes from left to right. Every scanner says how
many characters it takes, so the place of a token follows from the characters before it, and the
characters taken are always the next ones of the text.
-/

namespace StateGuard

namespace Position

/-- The position of the first character of a text. -/
def origin : Position := ⟨1, 0⟩

/-- The position after one more character. -/
def advance (position : Position) (c : Char) : Position :=
  if c = '\n' then ⟨position.line + 1, 0⟩ else ⟨position.line, position.column + 1⟩

/-- The position after a stretch of text. -/
def advanceAll (position : Position) (text : List Char) : Position := text.foldl advance position

end Position

/-- Why a text cannot be cut into tokens. -/
inductive LexCause where
  | unexpectedCharacter (c : Char)
  | integerOutOfRange (digits : String)
  | unterminatedText
  | unterminatedComment
  deriving DecidableEq, Repr, Inhabited

/-- The wording of a lexical error. -/
def LexCause.message : LexCause → String
  | .unexpectedCharacter c => "unexpected character `" ++ String.singleton c ++ "`"
  | .integerOutOfRange digits => "integer literal `" ++ digits ++ "` out of range"
  | .unterminatedText => "unterminated string literal"
  | .unterminatedComment => "unterminated block comment"

namespace Lexer

/-! ## Blank stretches and comments -/

/-- The length of a block comment after its opening, with its closing; `none` if it is not
closed. -/
def commentLength? : List Char → Option Nat
  | [] => none
  | '*' :: '/' :: _ => some 2
  | _ :: cs => (commentLength? cs).map (· + 1)

/-- The length of the rest of a line. -/
def lineLength (cs : List Char) : Nat := (cs.takeWhile (· ≠ '\n')).length

/-- The number of characters before the next token; `none` if a comment is not closed. -/
def triviaLength? : List Char → Option Nat
  | [] => some 0
  | '/' :: '/' :: cs => (triviaLength? (cs.drop (lineLength cs))).map (· + (2 + lineLength cs))
  | '/' :: '*' :: cs =>
    match commentLength? cs with
    | none => none
    | some n => (triviaLength? (cs.drop n)).map (· + (2 + n))
  | c :: cs => if Text.isBlank c then (triviaLength? cs).map (· + 1) else some 0
termination_by cs => cs.length
decreasing_by all_goals (simp only [List.length_drop, List.length_cons]; omega)

/-! ## Lexemes -/

/-- A character that may begin a word. An at-sign in front is not part of the word. -/
def startsWord (c : Char) : Bool := Text.isAlphabetic c || c == '_' || c == '@'

/-- A character that may stand inside a word. -/
def continuesWord (c : Char) : Bool := Text.isAlphanumeric c || c == '_'

/-- A character that may stand inside a number. -/
def continuesNumber (c : Char) : Bool := c.isDigit || c == '_'

/-- The largest integer literal. -/
def maxInteger : Nat := Word.capacity 63 - 1

/-- The value of an escaped character. -/
def unescape : Char → Char
  | 'n' => '\n'
  | 't' => '\t'
  | c => c

/-- The value of a text literal after its opening quote, and its length with the closing quote. The
error is the number of characters before the place where the literal breaks off. -/
def scanText : List Char → Except Nat (List Char × Nat)
  | [] => .error 0
  | '\n' :: _ => .error 0
  | '"' :: _ => .ok ([], 1)
  | ['\\'] => .error 1
  | '\\' :: c :: cs =>
    match scanText cs with
    | .error n => .error (n + 2)
    | .ok (value, n) => .ok (unescape c :: value, n + 2)
  | c :: cs =>
    match scanText cs with
    | .error n => .error (n + 1)
    | .ok (value, n) => .ok (c :: value, n + 1)

/-- The symbol that begins with `c`, and how many of the characters after `c` it takes. A question
mark and a dot are two symbols when a digit follows. -/
def scanSymbol? (c : Char) (cs : List Char) : Option (Symbol × Nat) :=
  match c with
  | '(' => some (.leftParen, 0)
  | ')' => some (.rightParen, 0)
  | '\x7b' => some (.leftBrace, 0)
  | '\x7d' => some (.rightBrace, 0)
  | ',' => some (.comma, 0)
  | ';' => some (.semicolon, 0)
  | ':' => some (.colon, 0)
  | '.' => some (.dot, 0)
  | '+' => some (.plus, 0)
  | '-' => some (.minus, 0)
  | '*' => some (.star, 0)
  | '/' => some (.slash, 0)
  | '?' =>
    match cs with
    | '.' :: d :: _ => if d.isDigit then some (.question, 0) else some (.questionDot, 1)
    | ['.'] => some (.questionDot, 1)
    | _ => some (.question, 0)
  | '=' =>
    match cs with
    | '=' :: _ => some (.eqEq, 1)
    | '>' :: _ => some (.arrow, 1)
    | _ => some (.assign, 0)
  | '!' => if cs.head? = some '=' then some (.notEq, 1) else some (.bang, 0)
  | '&' => if cs.head? = some '&' then some (.andAnd, 1) else none
  | '|' => if cs.head? = some '|' then some (.orOr, 1) else none
  | '<' => if cs.head? = some '=' then some (.ltE, 1) else some (.lt, 0)
  | '>' => if cs.head? = some '=' then some (.gtE, 1) else some (.gt, 0)
  | _ => none

/-- The number that begins with the digit `c`. Underscores between digits are left out. -/
def scanNumber (c : Char) (cs : List Char) : Except LexCause (Lexeme × Nat) :=
  let run := cs.takeWhile continuesNumber
  let digits := (c :: run).filter (· ≠ '_')
  let value := (Text.decimal? digits).getD 0
  if value ≤ maxInteger then .ok (.int value, run.length)
  else .error (.integerOutOfRange (String.ofList digits))

/-- The word that begins with `c`. -/
def scanWord (c : Char) (cs : List Char) : Lexeme × Nat :=
  let run := cs.takeWhile continuesWord
  (.word (String.ofList (if c = '@' then run else c :: run)), run.length)

/-- The lexeme that begins with `c`, and how many of the characters after `c` it takes. An error
comes with the number of characters before the place where it shows. -/
def scan (c : Char) (cs : List Char) : Except (LexCause × Nat) (Lexeme × Nat) :=
  if startsWord c then .ok (scanWord c cs)
  else if c.isDigit then (scanNumber c cs).mapError (·, 1)
  else if c = '"' then
    match scanText cs with
    | .ok (value, n) => .ok (.text (String.ofList value), n)
    | .error n => .error (.unterminatedText, n + 1)
  else
    match scanSymbol? c cs with
    | some (symbol, n) => .ok (.symbol symbol, n)
    | none => .error (.unexpectedCharacter c, 1)

/-! ## Token streams -/

/-- A lexical error and the line where it shows. -/
structure Error where
  cause : LexCause
  line : Nat
  deriving DecidableEq, Repr

/-- The tokens of the text from `start` on. -/
def tokensFrom (start : Position) (cs : List Char) : Except Error TokenStream :=
  match triviaLength? cs with
  | none => .error ⟨.unterminatedComment, (start.advanceAll cs).line⟩
  | some n =>
    let first := start.advanceAll (cs.take n)
    match _h : cs.drop n with
    | [] => .ok ⟨[], first⟩
    | c :: rest =>
      match scan c rest with
      | .error (cause, taken) => .error ⟨cause, (first.advanceAll ((c :: rest).take taken)).line⟩
      | .ok (lexeme, taken) =>
        let after := first.advanceAll (c :: rest.take taken)
        match tokensFrom after (rest.drop taken) with
        | .error e => .error e
        | .ok stream => .ok { stream with tokens := ⟨lexeme, ⟨first, after⟩⟩ :: stream.tokens }
termination_by cs.length
decreasing_by
  have hDrop := congrArg List.length _h
  simp only [List.length_drop, List.length_cons] at hDrop ⊢
  omega

/-- The fault of a lexical error in a file. -/
def Error.toFault (error : Error) (file : String) : Fault :=
  ((Fault.of .parse error.cause.message).inFile file).onLine error.line

end Lexer

/-- The tokens of a source text. -/
def TokenStream.ofSource (source : String) : Except Lexer.Error TokenStream :=
  Lexer.tokensFrom Position.origin source.toList

end StateGuard
