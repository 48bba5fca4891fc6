import StateGuard.Proofs.Syntax.Ancestry
import StateGuard.Proofs.Syntax.Layout
import StateGuard.Source.Lexer
import StateGuard.Source.Parser
import StateGuard.Syntax.Render

/-!
# The expressions of the language

Which trees of nodes are expressions that can be written down without loss.  The conditions are those of
a grammar: operands hold together at least as tightly as their operator asks, what stands before a dot or
a call is no bare conditional access, and member bindings stand at the head of the part behind a question
mark and nowhere else.  Names are words that are not keywords, and literals need no escape.

Two trees are the same expression when their nodes are, so trees are compared by `Arena.term`, the term
of a node without the places of its tokens.

## Main definitions

* `Node.rank`: how tightly a construct holds together.
* `Arena.IsExpression`: the nodes that are expressions, by the place where they stand.
* `Arena.fold`, `Arena.term`, `Arena.lexemes`: what a node amounts to, put together from its parts.
-/

namespace StateGuard

/-! ## Words and literals -/

/-- A letter or an underscore, and then letters, numbers and underscores. -/
def isWord (word : String) : Bool :=
  match word.toList with
  | [] => false
  | c :: cs => (Text.isAlphabetic c || c == '_') && cs.all Lexer.continuesWord

/-- A word that may name a variable, a parameter or a member. -/
def isName (word : String) : Bool := isWord word && !isKeyword word

/-- A literal that reads as itself: an integer without a sign that is not too large, or a text without
quotes, backslashes and newlines. -/
def Literal.isReadable : Literal → Bool
  | .bool _ => true
  | .null => true
  | .int value => 0 ≤ value && value ≤ Lexer.maxInteger
  | .str value => value.toList.all fun c => c != '"' && c != '\\' && c != '\n'

/-- A test that reads as itself.  The test for the literal `null` has a form of its own. -/
def Pattern.isReadable : Pattern → Bool
  | .null => true
  | .notNull => true
  | .literal .null => false
  | .literal value => value.isReadable

/-! ## Ranks -/

/-- The same argument with another value. -/
def Argument.map {ι κ : Type} (f : ι → κ) (arg : Argument ι) : Argument κ := ⟨arg.name, f arg.value⟩

namespace Node

variable {ι κ : Type}

@[simp]
theorem map_invocation (f : ι → κ) (callee : ι) (args : List (Argument ι)) :
    (Node.invocation callee args).map f = .invocation (f callee) (args.map (·.map f)) := by
  simp [map, mapChildren, Argument.map]

@[simp]
theorem map_lambda (f : ι → κ) (params : List ι) (body : ι) (isAsync : Bool) :
    (Node.lambda params body isAsync).map f = .lambda (params.map f) (f body) isAsync := by
  simp [map, mapChildren]

@[simp]
theorem map_block (f : ι → κ) (statements : List ι) :
    (Node.block statements).map f = .block (statements.map f) := by
  simp [map, mapChildren]

@[simp]
theorem map_method (f : ι → κ) (name : String) (returnType : Option TypeRef) (params : List ι)
    (body : ι) (isAsync : Bool) :
    (Node.method name returnType params body isAsync).map f =
      .method name returnType (params.map f) (f body) isAsync := by
  simp [map, mapChildren]

@[simp]
theorem map_compilationUnit (f : ι → κ) (members : List ι) :
    (Node.compilationUnit members).map f = .compilationUnit (members.map f) := by
  simp [map, mapChildren]

/-- How tightly a construct holds together: lambdas and conditionals least, then the levels of operators,
then signs, and names, calls and parentheses most. -/
def rank : Node ι → Nat
  | .lambda .. => 0
  | .conditional .. => 0
  | .binary op _ _ => op.level + 1
  | .isPattern .. => Parser.testLevel + 1
  | .unary .. => Parser.levels + 1
  | .await .. => Parser.levels + 1
  | _ => Parser.levels + 2

/-- Whether a dot or a call after the node would be read as applying to all of it. -/
def isReceiver (node : Node ι) : Bool :=
  node.rank == Parser.levels + 2 && node.kind != .conditionalAccess

end Node

/-! ## Expressions -/

/-- Where an expression stands. -/
inductive Slot where
  /-- Anywhere but in the two other places. -/
  | free
  /-- Behind a question mark, reading from what stands before it. -/
  | bound
  /-- Between the parentheses of a call. -/
  | argument
  deriving DecidableEq, Repr

namespace Arena

/-- The nodes that are expressions. -/
inductive IsExpression (arena : Arena) : Slot → arena.Id → Prop where
  | identifier {i : arena.Id} {name : String} (hNode : arena.node i = .identifier name)
      (hName : isName name = true) : IsExpression arena .free i
  | this {i : arena.Id} (hNode : arena.node i = .this) : IsExpression arena .free i
  | literal {i : arena.Id} {value : Literal} (hNode : arena.node i = .literal value)
      (hValue : value.isReadable = true) : IsExpression arena .free i
  | parenthesized {i inner : arena.Id} (hNode : arena.node i = .parenthesized inner)
      (hInner : IsExpression arena .free inner) : IsExpression arena .free i
  | memberBinding {i : arena.Id} {member : String} (hNode : arena.node i = .memberBinding member)
      (hMember : isName member = true) : IsExpression arena .bound i
  | memberAccess {slot : Slot} {i receiver : arena.Id} {member : String}
      (hNode : arena.node i = .memberAccess receiver member)
      (hReceiver : IsExpression arena slot receiver)
      (hSteady : (arena.node receiver).isReceiver = true) (hMember : isName member = true)
      (hSlot : slot ≠ .argument) : IsExpression arena slot i
  | conditionalAccess {slot : Slot} {i receiver rest : arena.Id}
      (hNode : arena.node i = .conditionalAccess receiver rest)
      (hReceiver : IsExpression arena slot receiver)
      (hSteady : (arena.node receiver).isReceiver = true)
      (hRest : IsExpression arena .bound rest) (hSlot : slot ≠ .argument) :
      IsExpression arena slot i
  | invocation {slot : Slot} {i callee : arena.Id} {args : List (Argument arena.Id)}
      (hNode : arena.node i = .invocation callee args)
      (hCallee : IsExpression arena slot callee)
      (hSteady : (arena.node callee).isReceiver = true)
      (hNames : ∀ a ∈ args, ∀ name, a.name = some name → isName name = true)
      (hArgs : ∀ a ∈ args, IsExpression arena .argument a.value) (hSlot : slot ≠ .argument) :
      IsExpression arena slot i
  | unary {i operand : arena.Id} {op : UnaryOp} (hNode : arena.node i = .unary op operand)
      (hOperand : IsExpression arena .free operand)
      (hRank : Parser.levels < (arena.node operand).rank) : IsExpression arena .free i
  | await {i operand : arena.Id} (hNode : arena.node i = .await operand)
      (hOperand : IsExpression arena .free operand)
      (hRank : Parser.levels < (arena.node operand).rank) : IsExpression arena .free i
  | binary {i left right : arena.Id} {op : BinaryOp} (hNode : arena.node i = .binary op left right)
      (hLeft : IsExpression arena .free left) (hRight : IsExpression arena .free right)
      (hRankLeft : op.level < (arena.node left).rank)
      (hRankRight : op.level + 1 < (arena.node right).rank) : IsExpression arena .free i
  | isPattern {i operand : arena.Id} {test : Pattern}
      (hNode : arena.node i = .isPattern operand test)
      (hOperand : IsExpression arena .free operand)
      (hRank : Parser.testLevel < (arena.node operand).rank) (hTest : test.isReadable = true) :
      IsExpression arena .free i
  | conditional {i condition whenTrue whenFalse : arena.Id}
      (hNode : arena.node i = .conditional condition whenTrue whenFalse)
      (hCondition : IsExpression arena .free condition)
      (hTrue : IsExpression arena .free whenTrue) (hFalse : IsExpression arena .free whenFalse)
      (hRank : 0 < (arena.node condition).rank) : IsExpression arena .free i
  | lambda {i body : arena.Id} {params : List arena.Id} {isAsync : Bool}
      (hNode : arena.node i = .lambda params body isAsync)
      (hParams : ∀ p ∈ params, ∃ name, arena.node p = .parameter name none ∧ isName name = true)
      (hBody : IsExpression arena .free body) : IsExpression arena .free i
  | value {i : arena.Id} (hValue : IsExpression arena .free i) : IsExpression arena .argument i
  | outVariable {i : arena.Id} {name : String} (hNode : arena.node i = .outVariable name none)
      (hName : isName name = true) : IsExpression arena .argument i

/-! ## Folding a tree -/

variable {arena : Arena} {α : Type}

/-- What the node `i` amounts to, given what a construct amounts to in terms of its parts. -/
def fold (arena : Arena) (join : Node α → α) (i : arena.Id) : α :=
  join ((arena.node i).mapChildren fun c _h => arena.fold join c)
termination_by arena.height i
decreasing_by exact height_lt_of_mem_children _h

theorem fold_eq (join : Node α → α) (i : arena.Id) :
    arena.fold join i = join ((arena.node i).map (arena.fold join)) := by
  rw [fold]
  rfl

end Arena

/-- The extent of a term whose place does not matter. -/
def Extent.nowhere : Extent := ⟨0, 0⟩

/-- The term of a node, without the places of its tokens. -/
def Arena.term (arena : Arena) (i : arena.Id) : Term := arena.fold (⟨·, .nowhere⟩) i

theorem Arena.term_eq {arena : Arena} {i : arena.Id} {node : Node arena.Id}
    (hNode : arena.node i = node) : arena.term i = ⟨node.map arena.term, .nowhere⟩ :=
  hNode ▸ fold_eq _ i

namespace Term

/-- The same term without the places of its tokens. -/
def bare (t : Term) : Term := ⟨t.node.mapChildren fun c _h => bare c, .nowhere⟩
termination_by sizeOf t
decreasing_by exact sizeOf_lt_of_mem_children _h

theorem bare_eq (t : Term) : t.bare = ⟨t.node.map bare, .nowhere⟩ := by
  rw [bare]
  rfl

/-- **The tree of a term has the same term,** up to the places of tokens. -/
theorem IsTree.term_eq_bare {term : Term} {tree : Tree} (h : term.IsTree tree) (i : tree.Id) :
    tree.term i = (h.subterm i).bare := by
  induction i using Arena.induction_parts with
  | step i ih =>
      rw [Arena.term_eq rfl, bare_eq, ← h.map_subterm_node, Node.map_map, Node.map_congr ih]
      rfl

end Term

/-! ## Lexemes -/

/-- The symbol before an operand. -/
def UnaryOp.sign : UnaryOp → Symbol
  | .not => .bang
  | .negate => .minus

/-- The symbol between two operands. -/
def BinaryOp.sign : BinaryOp → Symbol
  | .eq => .eqEq
  | .notEq => .notEq
  | .and => .andAnd
  | .or => .orOr
  | .lt => .lt
  | .ltE => .ltE
  | .gt => .gt
  | .gtE => .gtE
  | .add => .plus
  | .sub => .minus
  | .mul => .star
  | .div => .slash

def Literal.lexeme : Literal → Lexeme
  | .bool true => .word "true"
  | .bool false => .word "false"
  | .null => .word "null"
  | .int value => .int value
  | .str value => .text value

def Pattern.lexemes : Pattern → List Lexeme
  | .null => [.word "null"]
  | .notNull => [.word "not", .word "null"]
  | .literal value => [value.lexeme]

/-- Rows of lexemes with commas between them. -/
def separated (rows : List (List Lexeme)) : List Lexeme := List.intercalate [.symbol .comma] rows

@[simp]
theorem separated_nil : separated [] = [] := List.intercalate_nil

@[simp]
theorem separated_singleton (row : List Lexeme) : separated [row] = row := List.intercalate_singleton

theorem separated_cons_cons (row next : List Lexeme) (rows : List (List Lexeme)) :
    separated (row :: next :: rows) = row ++ .symbol .comma :: separated (next :: rows) := by
  simp [separated]

theorem separated_map_cons_cons {α : Type} (f : α → List Lexeme) (x y : α) (xs : List α) :
    separated ((x :: y :: xs).map f) = f x ++ .symbol .comma :: separated ((y :: xs).map f) :=
  separated_cons_cons _ _ _

/-- The parameters of a lambda: a single one stands alone. -/
def parameterLexemes : List (List Lexeme) → List Lexeme
  | [param] => param
  | params => .symbol .leftParen :: (separated params ++ [.symbol .rightParen])

def Argument.lexemes (arg : Argument (List Lexeme)) : List Lexeme :=
  match arg.name with
  | some name => .word name :: .symbol .colon :: arg.value
  | none => arg.value

/-- The lexemes of a construct, given those of its parts.  The question mark and the dot of a conditional
access are one lexeme, which stands before the member binding. -/
def Node.lexemes : Node (List Lexeme) → List Lexeme
  | .identifier name => [.word name]
  | .this => [.word "this"]
  | .literal value => [value.lexeme]
  | .memberAccess receiver member => receiver ++ [.symbol .dot, .word member]
  | .conditionalAccess receiver rest => receiver ++ .symbol .questionDot :: rest
  | .memberBinding member => [.word member]
  | .invocation callee args =>
    callee ++ .symbol .leftParen :: (separated (args.map (·.lexemes)) ++ [.symbol .rightParen])
  | .outVariable name _ => [.word "out", .word "var", .word name]
  | .unary op operand => .symbol op.sign :: operand
  | .binary op left right => left ++ .symbol op.sign :: right
  | .isPattern operand test => operand ++ .word "is" :: test.lexemes
  | .conditional condition whenTrue whenFalse =>
    condition ++ .symbol .question :: (whenTrue ++ .symbol .colon :: whenFalse)
  | .lambda params body isAsync =>
    (if isAsync then [.word "async"] else []) ++ (parameterLexemes params ++ .symbol .arrow :: body)
  | .await operand => .word "await" :: operand
  | .parenthesized inner => .symbol .leftParen :: (inner ++ [.symbol .rightParen])
  | .parameter name _ => [.word name]
  | _ => []

/-- The lexemes of an expression. -/
def Arena.lexemes (arena : Arena) (i : arena.Id) : List Lexeme := arena.fold Node.lexemes i

theorem Arena.lexemes_eq {arena : Arena} {i : arena.Id} {node : Node arena.Id}
    (hNode : arena.node i = node) : arena.lexemes i = (node.map arena.lexemes).lexemes :=
  hNode ▸ fold_eq _ i

/-! ## First lexemes -/

theorem isWord_of_isName {name : String} (h : isName name = true) : isWord name = true := by
  simp only [isName, Bool.and_eq_true] at h
  exact h.1

theorem ne_of_isKeyword {name : String} (hName : isName name = true) (keyword : String)
    (hKeyword : isKeyword keyword = true) : name ≠ keyword := by
  rintro rfl
  simp [isName, hKeyword] at hName

namespace Lexeme

/-- A lexeme that may begin a name, a literal or an expression in parentheses. -/
def opensPrimary : Lexeme → Bool
  | .word name => name != "out" && name != "await" && name != "async"
  | .int _ => true
  | .text _ => true
  | .symbol which => which == .leftParen

/-- A lexeme that stands before an operand. -/
def opensOperation (t : Lexeme) : Bool :=
  t == .symbol .bang || t == .symbol .minus || t == .word "await"

/-- A lexeme that may begin an expression. -/
def opens (t : Lexeme) : Bool := t.opensPrimary || t.opensOperation || t == .word "async"

/-- A lexeme that goes on with the expression before it. -/
def joins (t : Lexeme) : Bool :=
  t == .symbol .dot || t == .symbol .questionDot || t == .symbol .leftParen ||
    t == .symbol .question || t == .word "is" || t.binaryOp?.isSome

theorem opensPrimary_of_isName {name : String} (h : isName name = true) :
    (Lexeme.word name).opensPrimary = true := by
  have hOut := ne_of_isKeyword h "out" (by decide)
  have hAwait := ne_of_isKeyword h "await" (by decide)
  have hAsync := ne_of_isKeyword h "async" (by decide)
  simp [opensPrimary, hOut, hAwait, hAsync]

end Lexeme

theorem Literal.opensPrimary_lexeme (value : Literal) : value.lexeme.opensPrimary = true := by
  cases value with
  | bool value => cases value <;> decide
  | null => decide
  | int | str => rfl

theorem Literal.lexeme_ne_symbol (value : Literal) (which : Symbol) :
    value.lexeme ≠ .symbol which := by
  cases value with
  | bool value => cases value <;> simp [Literal.lexeme]
  | _ => simp [Literal.lexeme]

theorem Node.kind_ne_lambda {ι : Type} {node : Node ι} (h : 0 < node.rank) : node.kind ≠ .lambda := by
  cases node with
  | lambda => simp [rank] at h
  | _ => simp [kind]

theorem Node.rank_of_isReceiver {ι : Type} {node : Node ι} (h : node.isReceiver = true) :
    node.rank = Parser.levels + 2 := by
  simp only [isReceiver, Bool.and_eq_true, beq_iff_eq] at h
  exact h.1

namespace Arena.IsExpression

variable {arena : Arena} {slot : Slot} {i : arena.Id}

/-- What stands behind a question mark holds together most tightly. -/
theorem rank_of_bound (h : arena.IsExpression .bound i) :
    (arena.node i).rank = Parser.levels + 2 := by
  cases h with
  | memberBinding hNode | memberAccess hNode | conditionalAccess hNode | invocation hNode =>
      rw [hNode]
      rfl

/-- **Induction along the operands that stand first.**  An expression is a single lexeme, or an
expression in parentheses, or has a sign before it, or is a lambda, or goes on with an expression that
holds together at least as tightly. -/
theorem induction_first {motive : arena.Id → Prop}
    (single : ∀ {i : arena.Id} {t : Lexeme}, arena.lexemes i = [t] → t.opensPrimary = true →
      (∀ which, t ≠ .symbol which) → motive i)
    (paren : ∀ {i inner : arena.Id}, arena.IsExpression .free inner →
      arena.lexemes i = .symbol .leftParen :: (arena.lexemes inner ++ [.symbol .rightParen]) →
      motive inner → motive i)
    (sign : ∀ {i operand : arena.Id} {t : Lexeme}, arena.lexemes i = t :: arena.lexemes operand →
      t.opensOperation = true → (arena.node i).rank = Parser.levels + 1 → motive operand → motive i)
    (lambda : ∀ {i body : arena.Id} {params : List arena.Id} {isAsync : Bool},
      arena.node i = .lambda params body isAsync →
      (∀ p ∈ params, ∃ name, arena.node p = .parameter name none ∧ isName name = true) → motive i)
    (join : ∀ {i first : arena.Id} {t : Lexeme} {ts : List Lexeme},
      arena.lexemes i = arena.lexemes first ++ t :: ts → t.joins = true →
      0 < (arena.node first).rank → (arena.node i).rank ≤ (arena.node first).rank →
      motive first → motive i)
    (h : arena.IsExpression slot i) (hFree : slot = .free) : motive i := by
  induction h with
  | identifier hNode hName =>
      exact single (lexemes_eq hNode) (Lexeme.opensPrimary_of_isName hName) (by simp)
  | this hNode => exact single (lexemes_eq hNode) (by decide) (by simp)
  | @literal i value hNode _ =>
      exact single (lexemes_eq hNode) value.opensPrimary_lexeme value.lexeme_ne_symbol
  | parenthesized hNode hInner ih => exact paren hInner (lexemes_eq hNode) (ih rfl)
  | memberAccess hNode _ hSteady _ _ ih =>
      have hRank := Node.rank_of_isReceiver hSteady
      refine join (lexemes_eq hNode) (by decide) (by omega) ?_ (ih hFree)
      rw [hNode, hRank]
      exact Nat.le_refl _
  | conditionalAccess hNode _ hSteady _ _ ih =>
      have hRank := Node.rank_of_isReceiver hSteady
      refine join (lexemes_eq hNode) (by decide) (by omega) ?_ (ih hFree)
      rw [hNode, hRank]
      exact Nat.le_refl _
  | invocation hNode _ hSteady _ _ _ ih =>
      have hRank := Node.rank_of_isReceiver hSteady
      have hLexemes := lexemes_eq hNode
      rw [Node.map_invocation] at hLexemes
      refine join hLexemes (by decide) (by omega) ?_ (ih hFree)
      rw [hNode, hRank]
      exact Nat.le_refl _
  | @unary i operand op hNode _ _ ih =>
      exact sign (lexemes_eq hNode) (by cases op <;> decide) (by rw [hNode]; rfl) (ih rfl)
  | await hNode _ _ ih =>
      exact sign (lexemes_eq hNode) (by decide) (by rw [hNode]; rfl) (ih rfl)
  | @binary i left right op hNode _ _ hLeft _ ih =>
      refine join (lexemes_eq hNode) (by cases op <;> decide) (by omega) ?_ (ih rfl)
      rw [hNode]
      exact hLeft
  | isPattern hNode _ hRank _ ih =>
      refine join (lexemes_eq hNode) (by decide) (by omega) ?_ (ih rfl)
      rw [hNode]
      exact hRank
  | conditional hNode _ _ _ hRank ih =>
      refine join (lexemes_eq hNode) (by decide) hRank ?_ (ih rfl)
      rw [hNode]
      exact Nat.zero_le _
  | lambda hNode hParams => exact lambda hNode hParams
  | memberBinding | outVariable | value => simp at hFree

/-- The lexemes of a lambda before its arrow. -/
theorem exists_cons_parameterLexemes {params : List arena.Id}
    (hParams : ∀ p ∈ params, ∃ name, arena.node p = .parameter name none ∧ isName name = true)
    (body : List Lexeme) :
    ∃ t ts, parameterLexemes (params.map arena.lexemes) ++ .symbol .arrow :: body = t :: ts ∧
      t.opensPrimary = true ∧ ∀ u, ts.head? = some u → u ≠ .symbol .colon := by
  match params with
  | [] => exact ⟨.symbol .leftParen, _, rfl, by decide, by simp [separated]⟩
  | [p] =>
      obtain ⟨name, hNode, hName⟩ := hParams p List.mem_cons_self
      refine ⟨.word name, .symbol .arrow :: body, ?_, Lexeme.opensPrimary_of_isName hName, by simp⟩
      simp [parameterLexemes, lexemes_eq hNode, Node.map, Node.mapChildren, Node.lexemes]
  | p :: q :: params =>
      obtain ⟨name, hNode, hName⟩ := hParams p List.mem_cons_self
      refine ⟨.symbol .leftParen, _, rfl, by decide, ?_⟩
      simp [separated, lexemes_eq hNode, Node.map, Node.mapChildren, Node.lexemes]

/-- The lexemes of an expression of some rank begin with one that may open it, and no colon comes
second. -/
def Begins (rank : Nat) (ls : List Lexeme) : Prop :=
  ∃ t ts, ls = t :: ts ∧ t.opens = true ∧ (Parser.levels + 1 < rank → t.opensPrimary = true) ∧
    ∀ u, ts.head? = some u → u ≠ .symbol .colon

/-- **An expression begins with a lexeme that may open it.** -/
theorem begins_lexemes (h : arena.IsExpression .free i) :
    Begins (arena.node i).rank (arena.lexemes i) := by
  have hOpens : ∀ t : Lexeme, t.opens = true → t ≠ .symbol .colon := by
    rintro _ ht rfl
    exact absurd ht (by decide)
  refine induction_first (motive := fun i => Begins (arena.node i).rank (arena.lexemes i))
    ?_ ?_ ?_ ?_ ?_ h rfl
  · intro i t hLexemes hPrimary _
    exact ⟨t, [], hLexemes, by simp [Lexeme.opens, hPrimary], fun _ => hPrimary, by simp⟩
  · rintro i inner _ hLexemes ⟨t, ts, hInner, ht, -, -⟩
    refine ⟨_, _, hLexemes, by decide, fun _ => by decide, ?_⟩
    simpa [hInner] using hOpens t ht
  · rintro i operand sign hLexemes hSign hRank ⟨t, ts, hOperand, ht, -, -⟩
    refine ⟨sign, _, hLexemes, by simp [Lexeme.opens, hSign], fun h => by omega, ?_⟩
    simpa [hOperand] using hOpens t ht
  · intro i body params isAsync hNode hParams
    obtain ⟨t, ts, hParts, ht, hColon⟩ := exists_cons_parameterLexemes hParams (arena.lexemes body)
    have hLexemes := lexemes_eq hNode
    rw [Node.map_lambda, Node.lexemes, hParts] at hLexemes
    have hNot : ¬ Parser.levels + 1 < (arena.node i).rank := by simp [hNode, Node.rank]
    cases isAsync with
    | false => exact ⟨t, ts, hLexemes, by simp [Lexeme.opens, ht], fun h => absurd h hNot, hColon⟩
    | true =>
        refine ⟨.word "async", t :: ts, hLexemes, by decide, fun h => absurd h hNot, ?_⟩
        simpa using hOpens t (by simp [Lexeme.opens, ht])
  · rintro i first joint more hLexemes hJoins _ hRank ⟨t, ts, hFirst, ht, hPrimary, hColon⟩
    refine ⟨t, ts ++ joint :: more, by simp [hLexemes, hFirst], ht, fun h => hPrimary (by omega), ?_⟩
    cases ts with
    | nil =>
        simp only [List.nil_append, List.head?_cons, Option.some.injEq]
        rintro _ rfl rfl
        exact absurd hJoins (by decide)
    | cons u ts => simpa using hColon

end Arena.IsExpression

end StateGuard
