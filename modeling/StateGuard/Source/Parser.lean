import StateGuard.Source.ParseError
import StateGuard.Syntax.Term

/-!
# Parsing

A recursive-descent parser for methods and fields, statements and expressions. It reads lexemes
only, so the layout of a text cannot change what is read; nodes and errors say by the number of
lexemes left where they are.

A parser returns what it read and the lexemes after it, with a proof that these are fewer than a
bound: the number it was given, or one more for a parser that may read nothing. Every recursion
falls by that proof.
-/

namespace StateGuard

/-- The words that name no variable, type or member. -/
def keywords : List String :=
  ["if", "else", "return", "var", "out", "await", "async", "this", "true", "false", "null", "is",
   "new", "void"]

/-- A word of the language itself. -/
def isKeyword (word : String) : Bool := keywords.contains word

/-- The words that may stand before a member and say nothing about states. -/
def modifiers : List String :=
  ["public", "private", "protected", "internal", "static", "readonly", "override", "virtual"]

namespace Lexeme

/-- The operator that a lexeme spells between two operands. -/
def binaryOp? : Lexeme → Option BinaryOp
  | .symbol .orOr => some .or
  | .symbol .andAnd => some .and
  | .symbol .eqEq => some .eq
  | .symbol .notEq => some .notEq
  | .symbol .lt => some .lt
  | .symbol .ltE => some .ltE
  | .symbol .gt => some .gt
  | .symbol .gtE => some .gtE
  | .symbol .plus => some .add
  | .symbol .minus => some .sub
  | .symbol .star => some .mul
  | .symbol .slash => some .div
  | _ => none

end Lexeme

/-- How tightly an operator binds. -/
def BinaryOp.level : BinaryOp → Nat
  | .or => 0
  | .and => 1
  | .eq | .notEq => 2
  | .lt | .ltE | .gt | .gtE => 3
  | .add | .sub => 4
  | .mul | .div => 5

namespace Parser

/-- The level of `is` tests, that of the order relations. -/
def testLevel : Nat := 3

/-- The number of levels of operators between two operands. -/
def levels : Nat := 6

/-- What was read, and the lexemes after it. -/
structure Parsed (bound : Nat) (α : Type) where
  value : α
  rest : List Lexeme
  fits : rest.length < bound

/-- What was read, or why nothing could be. -/
abbrev Attempt : Type → Type := Except ParseError

/-- The error that `what` should stand at the beginning of `ts`. -/
def expected (what : Wanted) (ts : List Lexeme) : ParseError :=
  ⟨.expected what ts.head?, ts.length⟩

/-- Read one symbol. -/
def expect (which : Symbol) (ts : List Lexeme) : Attempt (Parsed ts.length Unit) :=
  match ts with
  | [] => .error (expected (.symbol which) ts)
  | t :: rest =>
    if t = .symbol which then .ok ⟨(), rest, by simp⟩ else .error (expected (.symbol which) ts)

/-- Read one lexeme if it comes next. -/
def accept (t : Lexeme) (ts : List Lexeme) : Option (Parsed ts.length Unit) :=
  match ts with
  | [] => none
  | u :: rest => if u = t then some ⟨(), rest, by simp⟩ else none

/-- Read a word that is not a keyword. -/
def expectWord (what : Wanted) (ts : List Lexeme) : Attempt (Parsed ts.length String) :=
  match ts with
  | .word name :: rest =>
    if isKeyword name then .error (expected what ts) else .ok ⟨name, rest, by simp⟩
  | _ => .error (expected what ts)

/-! ## Types -/

/-- Read a name with dots. The result is its segments. -/
def qualifiedName (ts : List Lexeme) : Attempt (Parsed ts.length (List String)) := do
  let ⟨name, rest, h⟩ ← expectWord .typeName ts
  match _hRest : rest with
  | .symbol .dot :: .word next :: more =>
    let ⟨names, rest, _⟩ ← qualifiedName (.word next :: more)
    return ⟨name :: names, rest, by grind⟩
  | _ => return ⟨[name], rest, h⟩
termination_by ts.length
decreasing_by grind

/-- The full name of a type: a name without dots is looked up, another stands for itself. -/
def fullName (resolve : String → String) : List String → String
  | [name] => resolve name
  | names => String.intercalate "." names

/-- Leave out a question mark. -/
def skipQuestion (ts : List Lexeme) : Parsed (ts.length + 1) Unit :=
  match ts with
  | .symbol .question :: rest => ⟨(), rest, by simp only [List.length_cons]; omega⟩
  | rest => ⟨(), rest, by simp⟩

mutual
/-- Read a type: a name, perhaps type arguments, perhaps a question mark. -/
def typeRef (resolve : String → String) (ts : List Lexeme) :
    Attempt (Parsed ts.length TypeRef) := do
  let ⟨names, rest, _⟩ ← qualifiedName ts
  match accept (.symbol .lt) rest with
  | some ⟨_, rest, _⟩ =>
    let ⟨args, rest, _⟩ ← typeArguments resolve rest
    let ⟨_, rest, _⟩ := skipQuestion rest
    return ⟨.generic (fullName resolve names) args, rest, by grind⟩
  | none =>
    let ⟨_, rest, _⟩ := skipQuestion rest
    return ⟨.named (fullName resolve names), rest, by grind⟩
termination_by 2 * ts.length
decreasing_by grind

/-- Read type arguments up to the closing bracket. -/
def typeArguments (resolve : String → String) (ts : List Lexeme) :
    Attempt (Parsed ts.length (List TypeRef)) := do
  let ⟨arg, rest, _⟩ ← typeRef resolve ts
  match accept (.symbol .comma) rest with
  | some ⟨_, rest, _⟩ =>
    let ⟨args, rest, _⟩ ← typeArguments resolve rest
    return ⟨arg :: args, rest, by grind⟩
  | none =>
    let ⟨_, rest, _⟩ ← expect .gt rest
    return ⟨[arg], rest, by grind⟩
termination_by 2 * ts.length + 1
decreasing_by all_goals grind
end

/-! ## Parameters and patterns -/

/-- The node from `before` lexemes left to the beginning of `rest`. -/
def spanning (before : Nat) (node : Node Term) (rest : List Lexeme) : Term :=
  ⟨node, ⟨before, rest.length⟩⟩

/-- Read the parameters of a method up to the closing parenthesis. There is at least one. -/
def parameters (resolve : String → String) (ts : List Lexeme) :
    Attempt (Parsed ts.length (List Term)) := do
  let ⟨type, rest, _⟩ ← typeRef resolve ts
  let ⟨name, rest, _⟩ ← expectWord .parameterName rest
  let param := spanning ts.length (.parameter name (some type)) rest
  match accept (.symbol .comma) rest with
  | some ⟨_, rest, _⟩ =>
    let ⟨params, rest, _⟩ ← parameters resolve rest
    return ⟨param :: params, rest, by grind⟩
  | none =>
    let ⟨_, rest, _⟩ ← expect .rightParen rest
    return ⟨[param], rest, by grind⟩
termination_by ts.length
decreasing_by grind

/-- Whether a lambda parameter has no type: it is followed by a comma or a parenthesis. -/
def isUntyped : List Lexeme → Bool
  | _ :: .symbol .comma :: _ => true
  | _ :: .symbol .rightParen :: _ => true
  | _ => false

/-- Read the type of a lambda parameter, which may be absent. -/
def parameterType (resolve : String → String) (ts : List Lexeme) :
    Attempt (Parsed (ts.length + 1) (Option TypeRef)) := do
  if isUntyped ts then
    return ⟨none, ts, by simp⟩
  else
    let ⟨type, rest, _⟩ ← typeRef resolve ts
    return ⟨some type, rest, by omega⟩

/-- Read the parameters of a lambda up to the closing parenthesis. -/
def lambdaParameters (resolve : String → String) (ts : List Lexeme) :
    Attempt (Parsed ts.length (List Term)) :=
  match ts with
  | .symbol .rightParen :: rest => .ok ⟨[], rest, by simp⟩
  | ts => do
    let ⟨type, rest, _⟩ ← parameterType resolve ts
    let ⟨name, rest, _⟩ ← expectWord .lambdaParameter rest
    let param := spanning ts.length (.parameter name type) rest
    match accept (.symbol .comma) rest with
    | some ⟨_, rest, _⟩ =>
      let ⟨params, rest, _⟩ ← lambdaParameters resolve rest
      return ⟨param :: params, rest, by grind⟩
    | none =>
      let ⟨_, rest, _⟩ ← expect .rightParen rest
      return ⟨[param], rest, by grind⟩
termination_by ts.length
decreasing_by grind

/-- Read what an `is` test compares with. An error shows at the lexeme after the offending one. -/
def pattern (ts : List Lexeme) : Attempt (Parsed ts.length Pattern) :=
  match ts with
  | [] => .error ⟨.unsupportedPattern none, 0⟩
  | .word "null" :: rest => .ok ⟨.null, rest, by simp⟩
  | .word "not" :: .word "null" :: rest =>
    .ok ⟨.notNull, rest, by simp only [List.length_cons]; omega⟩
  | .word "true" :: rest => .ok ⟨.literal (.bool true), rest, by simp⟩
  | .word "false" :: rest => .ok ⟨.literal (.bool false), rest, by simp⟩
  | .int value :: rest => .ok ⟨.literal (.int value), rest, by simp⟩
  | .text value :: rest => .ok ⟨.literal (.str value), rest, by simp⟩
  | t :: rest => .error ⟨.unsupportedPattern (some t), rest.length⟩

/-! ## Looking ahead -/

/-- Whether an arrow follows the parenthesis that closes the innermost of `depth` open ones. -/
def arrowAfterClosing : Nat → List Lexeme → Bool
  | _, [] => false
  | depth, .symbol .leftParen :: ts => arrowAfterClosing (depth + 1) ts
  | depth, .symbol .rightParen :: ts =>
    if depth ≤ 1 then ts.head? == some (.symbol .arrow) else arrowAfterClosing (depth - 1) ts
  | depth, _ :: ts => arrowAfterClosing depth ts

/-- Whether parameters and an arrow come next. -/
def startsParameters : List Lexeme → Bool
  | .word name :: .symbol .arrow :: _ => !isKeyword name
  | .symbol .leftParen :: ts => arrowAfterClosing 1 ts
  | _ => false

/-- Whether a lambda comes next. -/
def startsLambda : List Lexeme → Bool
  | .word "async" :: ts => startsParameters ts
  | ts => startsParameters ts

/-- The type and name of a declaration, if these come next and an initialiser or a semicolon comes
after them. -/
def declarationHead? (resolve : String → String) (ts : List Lexeme) :
    Option (Parsed ts.length (TypeRef × String)) :=
  match typeRef resolve ts with
  | .error _ => none
  | .ok ⟨type, rest, _⟩ =>
    match _hRest : rest with
    | .word name :: next :: after =>
      if !isKeyword name && (next = .symbol .assign || next = .symbol .semicolon) then
        some ⟨(type, name), next :: after, by grind⟩
      else none
    | _ => none

/-- Read an out variable after its keyword, which is where it begins. -/
def outVariable (resolve : String → String) (ts : List Lexeme) : Attempt (Parsed ts.length Term) :=
  let before := ts.length + 1
  match ts with
  | .word "var" :: rest => do
    let ⟨name, rest, _⟩ ← expectWord .outVariableName rest
    return ⟨spanning before (.outVariable name none) rest, rest, by grind⟩
  | ts => do
    let ⟨type, rest, _⟩ ← typeRef resolve ts
    let ⟨name, rest, _⟩ ← expectWord .outVariableName rest
    return ⟨spanning before (.outVariable name (some type)) rest, rest, by grind⟩

/-- The name before an argument, if there is one, and the lexemes of its value. -/
def argumentName (ts : List Lexeme) : Parsed (ts.length + 1) (Option String) :=
  match ts with
  | .word name :: .symbol .colon :: rest => ⟨some name, rest, by grind⟩
  | ts => ⟨none, ts, by simp⟩

/-- Leave out the keyword of an asynchronous lambda or method. -/
def skipAsync (ts : List Lexeme) : Parsed (ts.length + 1) Bool :=
  match ts with
  | .word "async" :: rest => ⟨true, rest, by grind⟩
  | ts => ⟨false, ts, by simp⟩

/-- Read the parameters of a lambda: a list in parentheses or one name. -/
def lambdaHead (resolve : String → String) (ts : List Lexeme) :
    Attempt (Parsed ts.length (List Term)) :=
  match ts with
  | .symbol .leftParen :: rest => do
    let ⟨params, rest, _⟩ ← lambdaParameters resolve rest
    return ⟨params, rest, by grind⟩
  | ts => do
    let ⟨name, rest, h⟩ ← expectWord .lambdaParameter ts
    return ⟨[spanning ts.length (.parameter name none) rest], rest, h⟩

/-- The literal or name that a single lexeme stands for. -/
def atom : Lexeme → Except ParseCause (Node Term)
  | .word "this" => .ok .this
  | .word "true" => .ok (.literal (.bool true))
  | .word "false" => .ok (.literal (.bool false))
  | .word "null" => .ok (.literal .null)
  | .word name =>
    if isKeyword name then .error (.unexpectedKeyword name) else .ok (.identifier name)
  | .int value => .ok (.literal (.int value))
  | .text value => .ok (.literal (.str value))
  | .symbol which => .error (.expected .expression (some (.symbol which)))

/-- The operator of a level that a lexeme spells. -/
def operator? (level : Nat) (t : Lexeme) : Option BinaryOp :=
  t.binaryOp?.filter fun op => op.level == level

/-! ## Statements and expressions -/

mutual
/-- Read statements up to the closing brace. -/
def statements (resolve : String → String) (ts : List Lexeme) :
    Attempt (Parsed ts.length (List Term)) :=
  match ts with
  | [] => .error ⟨.unclosedBlock, 0⟩
  | .symbol .rightBrace :: rest => .ok ⟨[], rest, by simp⟩
  | ts => do
    let ⟨first, rest, _⟩ ← statement resolve ts
    let ⟨others, rest, _⟩ ← statements resolve rest
    return ⟨first :: others, rest, by omega⟩
termination_by 32 * ts.length + 16
decreasing_by all_goals grind

/-- Read a block. -/
def block (resolve : String → String) (ts : List Lexeme) : Attempt (Parsed ts.length Term) := do
  let ⟨_, rest, _⟩ ← expect .leftBrace ts
  let ⟨body, rest, _⟩ ← statements resolve rest
  return ⟨spanning ts.length (.block body) rest, rest, by omega⟩
termination_by 32 * ts.length + 14
decreasing_by all_goals grind

/-- Read a statement. -/
def statement (resolve : String → String) (ts : List Lexeme) : Attempt (Parsed ts.length Term) :=
  match ts with
  | .symbol .leftBrace :: rest => block resolve (.symbol .leftBrace :: rest)
  | .word "if" :: rest => do
    let ⟨_, rest, _⟩ ← expect .leftParen rest
    let ⟨condition, rest, _⟩ ← expression resolve rest
    let ⟨_, rest, _⟩ ← expect .rightParen rest
    let ⟨thenBranch, rest, _⟩ ← statement resolve rest
    match accept (.word "else") rest with
    | some ⟨_, rest, _⟩ =>
      let ⟨elseBranch, rest, _⟩ ← statement resolve rest
      return ⟨spanning ts.length (.ifStatement condition thenBranch (some elseBranch)) rest, rest,
        by grind⟩
    | none =>
      return ⟨spanning ts.length (.ifStatement condition thenBranch none) rest, rest, by grind⟩
  | .word "return" :: .symbol .semicolon :: rest => do
    return ⟨spanning ts.length (.returnStatement none) rest, rest, by grind⟩
  | .word "return" :: rest => do
    let ⟨value, rest, _⟩ ← expression resolve rest
    let ⟨_, rest, _⟩ ← expect .semicolon rest
    return ⟨spanning ts.length (.returnStatement (some value)) rest, rest, by grind⟩
  | .word "var" :: .word name :: .symbol .assign :: rest => do
    if isKeyword name then throw (expected .variableName (.word name :: .symbol .assign :: rest))
    let ⟨init, rest, _⟩ ← expression resolve rest
    let ⟨_, rest, _⟩ ← expect .semicolon rest
    return ⟨spanning ts.length (.localDeclaration name none (some init)) rest, rest, by grind⟩
  | ts => do
    match declarationHead? resolve ts with
    | some ⟨(type, name), rest, _⟩ =>
      match accept (.symbol .assign) rest with
      | some ⟨_, rest, _⟩ =>
        let ⟨init, rest, _⟩ ← expression resolve rest
        let ⟨_, rest, _⟩ ← expect .semicolon rest
        return ⟨spanning ts.length (.localDeclaration name (some type) (some init)) rest, rest,
          by grind⟩
      | none =>
        let ⟨_, rest, _⟩ ← expect .semicolon rest
        return ⟨spanning ts.length (.localDeclaration name (some type) none) rest, rest, by grind⟩
    | none =>
      let ⟨expr, rest, _⟩ ← expression resolve ts
      let ⟨_, rest, _⟩ ← expect .semicolon rest
      return ⟨spanning ts.length (.expressionStatement expr) rest, rest, by grind⟩
termination_by 32 * ts.length + 15
decreasing_by all_goals grind

/-- Read an expression. -/
def expression (resolve : String → String) (ts : List Lexeme) : Attempt (Parsed ts.length Term) :=
  if startsLambda ts then lambda resolve ts else conditional resolve ts
termination_by 32 * ts.length + 13
decreasing_by all_goals grind

/-- Read a lambda. -/
def lambda (resolve : String → String) (ts : List Lexeme) : Attempt (Parsed ts.length Term) := do
  let ⟨isAsync, rest, _⟩ := skipAsync ts
  let ⟨params, rest, _⟩ ← lambdaHead resolve rest
  let ⟨_, rest, _⟩ ← expect .arrow rest
  if rest.head? = some (.symbol .leftBrace) then
    let ⟨body, rest, _⟩ ← block resolve rest
    return ⟨spanning ts.length (.lambda params body isAsync) rest, rest, by grind⟩
  else
    let ⟨body, rest, _⟩ ← expression resolve rest
    return ⟨spanning ts.length (.lambda params body isAsync) rest, rest, by grind⟩
termination_by 32 * ts.length + 12
decreasing_by all_goals grind

/-- Read a conditional expression or one that binds more tightly. -/
def conditional (resolve : String → String) (ts : List Lexeme) :
    Attempt (Parsed ts.length Term) := do
  let ⟨condition, rest, h⟩ ← operation resolve 0 ts
  match accept (.symbol .question) rest with
  | some ⟨_, rest, _⟩ =>
    let ⟨whenTrue, rest, _⟩ ← expression resolve rest
    let ⟨_, rest, _⟩ ← expect .colon rest
    let ⟨whenFalse, rest, _⟩ ← expression resolve rest
    return ⟨spanning ts.length (.conditional condition whenTrue whenFalse) rest, rest, by grind⟩
  | none => return ⟨condition, rest, h⟩
termination_by 32 * ts.length + 11
decreasing_by all_goals grind [levels]

/-- Read an expression whose operators bind at least as tightly as `level`. -/
def operation (resolve : String → String) (level : Nat) (ts : List Lexeme) :
    Attempt (Parsed ts.length Term) := do
  if level < levels then
    let ⟨left, rest, _⟩ ← operation resolve (level + 1) ts
    let ⟨whole, rest, _⟩ ← operationTail resolve level ts.length left rest
    return ⟨whole, rest, by omega⟩
  else unary resolve ts
termination_by 32 * ts.length + 4 + (levels - level)
decreasing_by all_goals grind [levels]

/-- Read the operators of a level after their left operand. -/
def operationTail (resolve : String → String) (level before : Nat) (left : Term)
    (ts : List Lexeme) : Attempt (Parsed (ts.length + 1) Term) :=
  match ts with
  | [] => .ok ⟨left, [], by simp⟩
  | t :: rest => do
    match operator? level t with
    | some op =>
      let ⟨right, rest, _⟩ ← operation resolve (level + 1) rest
      let whole := spanning before (.binary op left right) rest
      let ⟨whole, rest, _⟩ ← operationTail resolve level before whole rest
      return ⟨whole, rest, by grind⟩
    | none =>
      if level = testLevel ∧ t = .word "is" then
        let ⟨test, rest, _⟩ ← pattern rest
        let whole := spanning before (.isPattern left test) rest
        let ⟨whole, rest, _⟩ ← operationTail resolve level before whole rest
        return ⟨whole, rest, by grind⟩
      else return ⟨left, t :: rest, by simp⟩
termination_by 32 * ts.length
decreasing_by all_goals grind [levels]

/-- Read an expression with its signs. -/
def unary (resolve : String → String) (ts : List Lexeme) : Attempt (Parsed ts.length Term) :=
  match ts with
  | .symbol .bang :: rest => do
    let ⟨operand, rest, _⟩ ← unary resolve rest
    return ⟨spanning ts.length (.unary .not operand) rest, rest, by grind⟩
  | .symbol .minus :: rest => do
    let ⟨operand, rest, _⟩ ← unary resolve rest
    return ⟨spanning ts.length (.unary .negate operand) rest, rest, by grind⟩
  | .word "await" :: rest => do
    let ⟨operand, rest, _⟩ ← unary resolve rest
    return ⟨spanning ts.length (.await operand) rest, rest, by grind⟩
  | ts => do
    let ⟨head, rest, _⟩ ← primary resolve ts
    let ⟨whole, rest, _⟩ ← chain resolve ts.length head rest
    return ⟨whole, rest, by omega⟩
termination_by 32 * ts.length + 3
decreasing_by all_goals grind

/-- Read the member accesses and calls after an expression. A conditional access takes all that
follow it as the part read when the receiver is not null. -/
def chain (resolve : String → String) (before : Nat) (head : Term) (ts : List Lexeme) :
    Attempt (Parsed (ts.length + 1) Term) :=
  match ts with
  | .symbol .dot :: rest => do
    let ⟨member, rest, _⟩ ← expectWord .memberName rest
    let whole := spanning before (.memberAccess head member) rest
    let ⟨whole, rest, _⟩ ← chain resolve before whole rest
    return ⟨whole, rest, by grind⟩
  | .symbol .leftParen :: rest => do
    let ⟨args, rest, _⟩ ← arguments resolve rest
    let whole := spanning before (.invocation head args) rest
    let ⟨whole, rest, _⟩ ← chain resolve before whole rest
    return ⟨whole, rest, by grind⟩
  | .symbol .questionDot :: binding => do
    let ⟨member, rest, _⟩ ← expectWord .memberName binding
    let inner := spanning binding.length (.memberBinding member) rest
    let ⟨inner, rest, _⟩ ← chain resolve binding.length inner rest
    return ⟨spanning before (.conditionalAccess head inner) rest, rest, by grind⟩
  | ts => .ok ⟨head, ts, by simp⟩
termination_by 32 * ts.length
decreasing_by all_goals grind

/-- Read arguments up to the closing parenthesis. -/
def arguments (resolve : String → String) (ts : List Lexeme) :
    Attempt (Parsed ts.length (List (Argument Term))) :=
  match ts with
  | .symbol .rightParen :: rest => .ok ⟨[], rest, by simp⟩
  | ts => do
    let ⟨name, rest, _⟩ := argumentName ts
    let ⟨value, rest, _⟩ ← argument resolve rest
    match accept (.symbol .comma) rest with
    | some ⟨_, rest, _⟩ =>
      let ⟨args, rest, _⟩ ← arguments resolve rest
      return ⟨⟨name, value⟩ :: args, rest, by grind⟩
    | none =>
      let ⟨_, rest, _⟩ ← expect .rightParen rest
      return ⟨[⟨name, value⟩], rest, by grind⟩
termination_by 32 * ts.length + 15
decreasing_by all_goals grind

/-- Read the value of an argument: an out variable or an expression. -/
def argument (resolve : String → String) (ts : List Lexeme) : Attempt (Parsed ts.length Term) :=
  match ts with
  | .word "out" :: rest => do
    let ⟨target, rest, _⟩ ← outVariable resolve rest
    return ⟨target, rest, by grind⟩
  | ts => expression resolve ts
termination_by 32 * ts.length + 14
decreasing_by all_goals grind

/-- Read a name, a literal or an expression in parentheses. -/
def primary (resolve : String → String) (ts : List Lexeme) : Attempt (Parsed ts.length Term) :=
  match ts with
  | [] => .error (expected .expression [])
  | .symbol .leftParen :: rest => do
    let ⟨inner, rest, _⟩ ← expression resolve rest
    let ⟨_, rest, _⟩ ← expect .rightParen rest
    return ⟨spanning ts.length (.parenthesized inner) rest, rest, by grind⟩
  | t :: rest => do
    match atom t with
    | .ok node => return ⟨spanning ts.length node rest, rest, by simp⟩
    | .error cause => throw ⟨cause, ts.length⟩
termination_by 32 * ts.length + 1
decreasing_by all_goals grind
end

/-! ## Members -/

/-- Leave out modifiers. -/
def skipModifiers : (ts : List Lexeme) → Parsed (ts.length + 1) Unit
  | .word name :: rest =>
    if modifiers.contains name then
      let ⟨_, rest, _⟩ := skipModifiers rest
      ⟨(), rest, by grind⟩
    else ⟨(), .word name :: rest, by simp⟩
  | ts => ⟨(), ts, by simp⟩

/-- Read the type of a member; `void` is none. -/
def memberType (resolve : String → String) (ts : List Lexeme) :
    Attempt (Parsed ts.length (Option TypeRef)) :=
  match ts with
  | .word "void" :: rest => .ok ⟨none, rest, by simp⟩
  | ts => do
    let ⟨type, rest, h⟩ ← typeRef resolve ts
    return ⟨some type, rest, h⟩

/-- Read the parameters of a method, which may be none. -/
def parameterList (resolve : String → String) (ts : List Lexeme) :
    Attempt (Parsed ts.length (List Term)) :=
  match ts with
  | .symbol .rightParen :: rest => .ok ⟨[], rest, by simp⟩
  | ts => parameters resolve ts

/-- Read a method or a field. -/
def member (resolve : String → String) (ts : List Lexeme) : Attempt (Parsed ts.length Term) := do
  let ⟨_, rest, _⟩ := skipModifiers ts
  let ⟨isAsync, rest, _⟩ := skipAsync rest
  let ⟨_, rest, _⟩ := skipModifiers rest
  let ⟨type, rest, _⟩ ← memberType resolve rest
  let ⟨name, rest, _⟩ ← expectWord .memberName rest
  match accept (.symbol .leftParen) rest with
  | some ⟨_, rest, _⟩ =>
    let ⟨params, rest, _⟩ ← parameterList resolve rest
    let ⟨body, rest, _⟩ ← block resolve rest
    return ⟨spanning ts.length (.method name type params body isAsync) rest, rest, by grind⟩
  | none =>
    if isAsync || type.isNone then throw ⟨.missingParameters name, rest.length⟩
    match accept (.symbol .assign) rest with
    | some ⟨_, rest, _⟩ =>
      let ⟨init, rest, _⟩ ← expression resolve rest
      let ⟨_, rest, _⟩ ← expect .semicolon rest
      return ⟨spanning ts.length (.localDeclaration name type (some init)) rest, rest, by grind⟩
    | none =>
      let ⟨_, rest, _⟩ ← expect .semicolon rest
      return ⟨spanning ts.length (.localDeclaration name type none) rest, rest, by grind⟩

/-- Read members up to the end. -/
def members (resolve : String → String) (ts : List Lexeme) : Except ParseError (List Term) :=
  match ts with
  | [] => return []
  | ts => do
    let ⟨first, rest, _⟩ ← member resolve ts
    return first :: (← members resolve rest)
termination_by ts.length
decreasing_by grind

/-- Read a whole text. Simple type names are completed by `resolve`. -/
def compilationUnit (resolve : String → String) (ts : List Lexeme) : Except ParseError Term := do
  let all ← members resolve ts
  return spanning ts.length (.compilationUnit all) []

end Parser

end StateGuard
