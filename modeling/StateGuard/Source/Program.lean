import StateGuard.Source.Lexer
import StateGuard.Source.Parser

/-!
# Programs

From a source text to its syntax tree: the tokens, the term they form, and the tree laid out with
the spans of the tokens.
-/

namespace StateGuard

namespace TokenStream

/-- The lexemes of a stream. -/
def lexemes (stream : TokenStream) : List Lexeme := stream.tokens.map (·.lexeme)

/-- The position where so many tokens are left. -/
def position (stream : TokenStream) (left : Nat) : Position :=
  match stream.tokens[stream.tokens.length - left]? with
  | some token => token.span.start
  | none => stream.stop

/-- The span of a stretch of tokens, given the spans of all of them. It goes from the beginning of
the first to the end of the last; a stretch of none lies at the origin. -/
def locate (spans : Array Span) (extent : Extent) : Span :=
  match spans[spans.size - extent.before]?, spans[spans.size - extent.after - 1]? with
  | some first, some last => ⟨first.start, last.stop⟩
  | _, _ => ⟨.origin, .origin⟩

end TokenStream

/-- The fault of a grammatical error in a file. -/
def ParseError.toFault (error : ParseError) (file : String) (stream : TokenStream) : Fault :=
  ((Fault.of .parse error.cause.message).inFile file).onLine (stream.position error.left).line

/-- The syntax tree of a source text. Simple type names are completed by `resolve`. -/
def Tree.ofSource (resolve : String → String) (file source : String) : Except Fault Tree := do
  let stream ← (TokenStream.ofSource source).mapError (·.toFault file)
  let unit ← (Parser.compilationUnit resolve stream.lexemes).mapError (·.toFault file stream)
  let spans := (stream.tokens.map (·.span)).toArray
  (unit.toTree file (TokenStream.locate spans)).mapError (·.toFault file)

end StateGuard
