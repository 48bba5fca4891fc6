import StateGuard.Proofs.Source.Postorder
import StateGuard.Proofs.Source.Reading
import StateGuard.Proofs.Source.Spelling

/-!
# Rendering and reading back

The text of an expression is read as the expression.  Between text and term stand the lexemes: rendering
spells them (`Arena.IsExpression.spells`), and the parser reads them back, which is shown here by induction
over expressions.  How much an expression promises depends on where it stands and on its rank: behind a
question mark it is a chain, as an operand it is read at every level below its rank, and everywhere else
it is read up to what closes it.

## Main results

* `Arena.IsExpression.isReadBack`: the lexemes of an expression are read as the expression, in every place
  where it may stand.
* `Arena.render_is_read_back`: its text is read as the expression, alone and inside a program.
-/

namespace StateGuard

namespace Arena

open StateGuard.Parser

variable {resolve : String → String} {arena : Arena} {slot : Slot} {i : arena.Id}

/-- How the lexemes of a node are read, by the place where it stands. -/
structure IsReadBack (resolve : String → String) (arena : Arena) (slot : Slot) (i : arena.Id) :
    Prop where
  wholeChain : slot ≠ .argument → (arena.node i).rank = levels + 2 →
    WholeChain resolve slot (arena.lexemes i) (arena.term i)
  heads : slot ≠ .argument → (arena.node i).isReceiver = true →
    Heads resolve slot (arena.lexemes i) (arena.term i)
  isOperand : slot = .free →
    IsOperand resolve (arena.node i).rank (arena.lexemes i) (arena.term i)
  isRead : slot = .free → IsRead resolve (arena.lexemes i) (arena.term i)
  isArgument : slot = .argument → IsArgument resolve (arena.lexemes i) (arena.term i)

theorem IsExpression.expression_eq (h : arena.IsExpression .free i)
    (hKind : (arena.node i).kind ≠ .lambda) {rest : List Lexeme} (hRest : IsClosing rest) :
    expression resolve (arena.lexemes i ++ rest) =
      Parser.conditional resolve (arena.lexemes i ++ rest) := by
  have hStarts := h.not_startsLambda hKind (hRest.head?_ne (t := .symbol .arrow) (by decide))
  rw [expression, if_neg (by simp [hStarts])]

namespace IsReadBack

theorem isRead_of_isOperand (h : arena.IsExpression .free i) (hRank : 0 < (arena.node i).rank)
    (hOperand : IsOperand resolve (arena.node i).rank (arena.lexemes i) (arena.term i)) :
    IsRead resolve (arena.lexemes i) (arena.term i) := by
  intro rest hRest
  rw [h.expression_eq (Node.kind_ne_lambda hRank) hRest]
  exact (hOperand.whole_of_lt (Nat.zero_le _) hRank).reads_conditional hRest

/-- An expression that is no chain. -/
theorem of_isRead (hTop : (arena.node i).rank ≤ levels + 1)
    (hOperand : IsOperand resolve (arena.node i).rank (arena.lexemes i) (arena.term i))
    (hRead : IsRead resolve (arena.lexemes i) (arena.term i)) : IsReadBack resolve arena .free i where
  wholeChain _ h := by omega
  heads _ h := by
    have hRank := Node.rank_of_isReceiver h
    omega
  isOperand _ := hOperand
  isRead _ := hRead
  isArgument h := by simp at h

/-- An operator is read at its own level and at looser ones. -/
theorem of_isOperand (h : arena.IsExpression .free i) (hRank : 0 < (arena.node i).rank)
    (hTop : (arena.node i).rank ≤ levels + 1)
    (hOperand : IsOperand resolve (arena.node i).rank (arena.lexemes i) (arena.term i)) :
    IsReadBack resolve arena .free i := of_isRead hTop hOperand (isRead_of_isOperand h hRank hOperand)

/-- A lambda or a conditional is no operand. -/
theorem of_rank_eq_zero (hRank : (arena.node i).rank = 0)
    (hRead : IsRead resolve (arena.lexemes i) (arena.term i)) : IsReadBack resolve arena .free i :=
  of_isRead (by omega) (hRank ▸ isOperand_zero) hRead

/-- A chain is read at every level, if it may stand there. -/
theorem of_wholeChain (h : arena.IsExpression slot i) (hSlot : slot ≠ .argument)
    (hRank : (arena.node i).rank = levels + 2)
    (hChain : WholeChain resolve slot (arena.lexemes i) (arena.term i))
    (hHeads : (arena.node i).isReceiver = true →
      Heads resolve slot (arena.lexemes i) (arena.term i)) : IsReadBack resolve arena slot i := by
  have hOperand : slot = .free →
      IsOperand resolve (arena.node i).rank (arena.lexemes i) (arena.term i) := by
    rintro rfl
    obtain ⟨first, more, hLexemes, -, hPrimary, -⟩ := h.begins_lexemes
    exact (hChain.whole ⟨first, by simp [hLexemes], hPrimary (by omega)⟩).isOperand
  refine ⟨fun _ _ => hChain, fun _ => hHeads, hOperand, ?_, fun hArg => absurd hArg hSlot⟩
  rintro rfl
  exact isRead_of_isOperand h (by omega) (hOperand rfl)

theorem of_heads (h : arena.IsExpression slot i) (hSlot : slot ≠ .argument)
    (hRank : (arena.node i).rank = levels + 2)
    (hHeads : Heads resolve slot (arena.lexemes i) (arena.term i)) :
    IsReadBack resolve arena slot i := of_wholeChain h hSlot hRank hHeads.wholeChain fun _ => hHeads

theorem of_isArgument (h : IsArgument resolve (arena.lexemes i) (arena.term i)) :
    IsReadBack resolve arena .argument i where
  wholeChain hSlot := absurd rfl hSlot
  heads hSlot := absurd rfl hSlot
  isOperand hSlot := by simp at hSlot
  isRead hSlot := by simp at hSlot
  isArgument _ := h

/-- An expression is read as the value of an argument: it does not begin like an out variable. -/
theorem value (h : arena.IsExpression .free i) (hRead : IsReadBack resolve arena .free i) :
    IsReadBack resolve arena .argument i := by
  obtain ⟨first, more, hLexemes, hOpens, -, hColon⟩ := h.begins_lexemes
  refine of_isArgument ⟨fun rest hRest => ?_, first, more, hLexemes, ?_, hColon⟩
  · rw [argument]
    · exact hRead.isRead rfl rest hRest
    · rintro ts hEq
      rw [hLexemes] at hEq
      obtain rfl := (List.cons.inj hEq).1
      exact absurd hOpens (by decide)
  · rintro rfl
    exact absurd hOpens (by decide)

end IsReadBack

theorem isParameter_of_node {p : arena.Id}
    (h : ∃ name, arena.node p = .parameter name none ∧ isName name = true) :
    IsParameter (arena.lexemes p) (arena.term p) := by
  obtain ⟨name, hNode, hName⟩ := h
  exact ⟨name, hName, lexemes_eq hNode, term_eq hNode⟩

namespace IsExpression

/-- **The lexemes of an expression are read as the expression.** -/
theorem isReadBack (h : arena.IsExpression slot i) : IsReadBack resolve arena slot i := by
  induction h with
  | identifier hNode hName =>
      refine .of_heads (.identifier hNode hName) (by simp) (by rw [hNode]; rfl) ?_
      rw [lexemes_eq hNode, term_eq hNode]
      exact heads_of_atom (atom_of_isName hName)
  | this hNode =>
      refine .of_heads (.this hNode) (by simp) (by rw [hNode]; rfl) ?_
      rw [lexemes_eq hNode, term_eq hNode]
      have hThis : atom (.word "this") = .ok .this := rfl
      exact heads_of_atom hThis
  | @literal i value hNode hValue =>
      refine .of_heads (.literal hNode hValue) (by simp) (by rw [hNode]; rfl) ?_
      rw [lexemes_eq hNode, term_eq hNode]
      exact heads_of_atom (atom_lexeme value)
  | parenthesized hNode hInner ih =>
      refine .of_heads (.parenthesized hNode hInner) (by simp) (by rw [hNode]; rfl) ?_
      rw [lexemes_eq hNode, term_eq hNode]
      exact (ih.isRead rfl).heads_parenthesized
  | memberBinding hNode hMember =>
      refine .of_heads (.memberBinding hNode hMember) (by simp) (by rw [hNode]; rfl) ?_
      rw [lexemes_eq hNode, term_eq hNode]
      exact heads_memberBinding hMember
  | memberAccess hNode hReceiver hSteady hMember hSlot ih =>
      refine .of_heads (.memberAccess hNode hReceiver hSteady hMember hSlot) hSlot
        (by rw [hNode]; rfl) ?_
      rw [lexemes_eq hNode, term_eq hNode]
      exact (ih.heads hSlot hSteady).memberAccess hMember
  | conditionalAccess hNode hReceiver hSteady hRest hSlot ih ihRest =>
      refine .of_wholeChain (.conditionalAccess hNode hReceiver hSteady hRest hSlot) hSlot
        (by rw [hNode]; rfl) ?_ (by simp [hNode, Node.isReceiver, Node.kind])
      rw [lexemes_eq hNode, term_eq hNode]
      exact (ih.heads hSlot hSteady).conditionalAccess (ihRest.wholeChain (by simp) hRest.rank_of_bound)
  | invocation hNode hCallee hSteady hNames hArgs hSlot ih ihArgs =>
      refine .of_heads (.invocation hNode hCallee hSteady hNames hArgs hSlot) hSlot
        (by rw [hNode]; rfl) ?_
      rw [lexemes_eq hNode, term_eq hNode, Node.map_invocation, Node.map_invocation]
      exact (ih.heads hSlot hSteady).invocation fun a ha => (ihArgs a ha).isArgument rfl
  | unary hNode hOperand hRank ih =>
      refine .of_isOperand (.unary hNode hOperand hRank) (by simp [hNode, Node.rank])
        (by simp [hNode, Node.rank]) ?_
      rw [lexemes_eq hNode, term_eq hNode]
      exact ((ih.isOperand rfl).whole hRank).unary.isOperand
  | await hNode hOperand hRank ih =>
      refine .of_isOperand (.await hNode hOperand hRank) (by simp [hNode, Node.rank])
        (by simp [hNode, Node.rank]) ?_
      rw [lexemes_eq hNode, term_eq hNode]
      exact ((ih.isOperand rfl).whole hRank).await.isOperand
  -- The left operand goes on at the level of the operator, the right one is read at the next level.
  | @binary i left right op hNode hLeft hRight hRankLeft hRankRight ihLeft ihRight =>
      have hLevel : op.level < levels := by cases op <;> decide
      refine .of_isOperand (.binary hNode hLeft hRight hRankLeft hRankRight)
        (by simp [hNode, Node.rank]) (by simp [hNode, Node.rank]; omega) ?_
      rw [lexemes_eq hNode, term_eq hNode, hNode]
      exact (((ihLeft.isOperand rfl).goesOn _ hLevel hRankLeft).binary
        ((ihRight.isOperand rfl).whole_of_lt hLevel hRankRight)).isOperand hLevel
  | isPattern hNode hOperand hRank hTest ih =>
      have hLevel : testLevel < levels := by decide
      refine .of_isOperand (.isPattern hNode hOperand hRank hTest)
        (by simp [hNode, Node.rank]) (by simp [hNode, Node.rank]; omega) ?_
      rw [lexemes_eq hNode, term_eq hNode, hNode]
      exact (((ih.isOperand rfl).goesOn _ hLevel hRank).isPattern hTest).isOperand hLevel
  | conditional hNode hCondition hTrue hFalse hRank ihCondition ihTrue ihFalse =>
      refine .of_rank_eq_zero (by simp [hNode, Node.rank]) fun rest hRest => ?_
      have hSelf := IsExpression.conditional hNode hCondition hTrue hFalse hRank
      rw [hSelf.expression_eq (by simp [hNode, Node.kind]) hRest, lexemes_eq hNode, term_eq hNode]
      exact ((ihCondition.isOperand rfl).whole_of_lt (Nat.zero_le _) hRank).reads_conditional_of_isRead
        (ihTrue.isRead rfl) (ihFalse.isRead rfl) hRest
  | @lambda i body params isAsync hNode hParams hBody ih =>
      refine .of_rank_eq_zero (by simp [hNode, Node.rank]) fun rest hRest => ?_
      obtain ⟨first, more, hHead, hPrimary, -⟩ :=
        exists_cons_parameterLexemes hParams (arena.lexemes body ++ rest)
      obtain ⟨opening, others, hLexemes, hOpens, -, -⟩ := hBody.begins_lexemes
      rw [expression, if_pos (startsLambda_of_lambda hNode hParams rest), lexemes_eq hNode,
        term_eq hNode, Node.map_lambda, Node.map_lambda]
      refine (ih.isRead rfl).reads_lambda (fun p hp => isParameter_of_node (hParams p hp)) isAsync
        hRest ?_ ?_
      -- No parameter is called `async`, so the keyword is there only when it is meant.
      · rw [hHead, List.head?_cons, ne_eq, Option.some.injEq]
        rintro rfl
        exact absurd hPrimary (by decide)
      -- No expression begins with a brace, so the body is not taken for a block.
      · rw [hLexemes, List.cons_append, List.head?_cons, ne_eq, Option.some.injEq]
        rintro rfl
        exact absurd hOpens (by decide)
  | value hValue ih => exact ih.value hValue
  | outVariable hNode hName =>
      refine .of_isArgument ?_
      rw [lexemes_eq hNode, term_eq hNode]
      exact isArgument_outVariable hName

end IsExpression

end Arena

/-! ## Programs -/

/-- The text of a method that returns a value, given the text of the value. -/
def returning (text : String) : String := "void M() \x7b return " ++ text ++ "; \x7d"

/-- The program of a method that returns a value. -/
def Term.returned (value : Term) : Term :=
  let statement : Term := ⟨.returnStatement (some value), .nowhere⟩
  let body : Term := ⟨.block [statement], .nowhere⟩
  ⟨.compilationUnit [⟨.method "M" none [] body false, .nowhere⟩], .nowhere⟩

/-- The lexemes of a method that returns a value, given those of the value. -/
def returningLexemes (ls : List Lexeme) : List Lexeme :=
  [.word "void", .word "M", .symbol .leftParen, .symbol .rightParen, .symbol .leftBrace,
    .word "return"] ++ (ls ++ [.symbol .semicolon, .symbol .rightBrace])

open Lexer in
theorem Spells.cuts_returning {text : String} {ls : List Lexeme} (h : Spells text ls) :
    Cuts (returning text).toList (returningLexemes ls) := by
  have hBrace := Cuts.symbol .rightBrace (by simp [stopsBefore]) Cuts.nil
  have hSemicolon := Cuts.symbol .semicolon (by simp [stopsBefore]) hBrace.space
  have hValue := h _ _ (breaks_spelling .semicolon _) hSemicolon
  have hReturn := Spells.word_space "return" (by decide) hValue
  have hOpen := Cuts.symbol .leftBrace (by simp [stopsBefore]) hReturn.space
  have hClose := Cuts.symbol .rightParen (by simp [stopsBefore]) hOpen.space
  have hParens := Cuts.symbol .leftParen (by simp [stopsBefore]) hClose
  have hName : isWord "M" = true := by decide
  have hMethod := Cuts.word hName (breaks_spelling .leftParen _) hParens
  have hAll := Spells.word_space "void" (by decide) hMethod
  unfold returning returningLexemes
  rw [String.toList_append, String.toList_append]
  simpa [Symbol.spelling] using hAll

namespace Parser

variable {resolve : String → String} {ls : List Lexeme} {t : Term}

/-- A value after `return` is read up to its semicolon, since no expression begins with one. -/
theorem IsRead.reads_block (h : IsRead resolve ls t) {first : Lexeme} (hHead : ls.head? = some first)
    (hFirst : first ≠ .symbol .semicolon) (rest : List Lexeme) :
    Reads (block resolve (.symbol .leftBrace :: .word "return" ::
        (ls ++ .symbol .semicolon :: .symbol .rightBrace :: rest)))
      (·.bare = ⟨.block [⟨.returnStatement (some t), .nowhere⟩], .nowhere⟩) rest := by
  have hStatement : Reads (statement resolve (.word "return" ::
      (ls ++ .symbol .semicolon :: .symbol .rightBrace :: rest)))
      (·.bare = ⟨.returnStatement (some t), .nowhere⟩) (.symbol .rightBrace :: rest) := by
    rw [statement]
    · refine (h _ (isClosing_cons (by decide))).bind fun value _ hValue => ?_
      refine (reads_expect .semicolon _).bind fun _ _ _ => Reads.done ?_
      rw [Term.bare_eq, ← hValue]
      rfl
    · intro more hEq
      have hSame := congrArg List.head? hEq
      rw [List.head?_append, hHead] at hSame
      exact hFirst (Option.some.inj hSame)
  have hStatements : Reads (statements resolve (.word "return" ::
      (ls ++ .symbol .semicolon :: .symbol .rightBrace :: rest)))
      (·.map Term.bare = [⟨.returnStatement (some t), .nowhere⟩]) rest := by
    rw [statements]
    · refine hStatement.bind fun value _ hValue => ?_
      dsimp only
      rw [statements]
      refine Reads.done ?_
      rw [List.map_singleton, hValue]
    · simp
    · simp
  rw [block]
  refine (reads_expect .leftBrace _).bind fun _ _ _ => ?_
  refine hStatements.bind fun body _ hBody => Reads.done ?_
  rw [Term.bare_eq, ← hBody]
  exact congrArg (Term.mk · _) (Node.map_block ..)

theorem IsRead.compilationUnit_returning (h : IsRead resolve ls t) {first : Lexeme}
    (hHead : ls.head? = some first) (hFirst : first ≠ .symbol .semicolon) :
    ∃ unit, compilationUnit resolve (returningLexemes ls) = .ok unit ∧ unit.bare = t.returned := by
  have hMember : Reads (member resolve (returningLexemes ls))
      (·.bare = ⟨.method "M" none [] ⟨.block [⟨.returnStatement (some t), .nowhere⟩], .nowhere⟩ false,
        .nowhere⟩) [] := by
    rw [returningLexemes, member]
    refine Reads.bind (P := (· = none)) (Reads.done rfl) fun type _ hType => ?_
    have hName : isName "M" = true := by decide
    refine (reads_expectWord .memberName hName _).bind fun name _ hName => ?_
    refine Reads.bind (P := (· = [])) (Reads.done rfl) fun params _ hParams => ?_
    refine (h.reads_block hHead hFirst []).bind fun body _ hBody => Reads.done ?_
    rw [Term.bare_eq, ← hBody, hType, hName, hParams]
    exact congrArg (Term.mk · _) (Node.map_method ..)
  obtain ⟨⟨method, more, _⟩, hRead, hBare, hMore⟩ := hMember
  obtain rfl : more = [] := hMore
  have hMembers : members resolve (returningLexemes ls) = .ok [method] := by
    rw [members, hRead]
    · change (do return method :: (← members resolve [])) = _
      rw [members]
      rfl
    · simp [returningLexemes]
  refine ⟨spanning (returningLexemes ls).length (.compilationUnit [method]) [], ?_, ?_⟩
  · rw [compilationUnit, hMembers]
    rfl
  · rw [Term.bare_eq, Term.returned, ← hBare]
    exact congrArg (Term.mk · _) (Node.map_compilationUnit ..)

end Parser

/-! ## Reading what was rendered -/

open StateGuard.Parser in
/-- **Reading undoes rendering.**  The text of an expression is cut into lexemes that are read to their
end as the same expression, and a method that returns the text is read as the method that returns the
expression. -/
theorem Arena.render_is_read_back (resolve : String → String) (file : String) {arena : Arena}
    {i : arena.Id} (h : arena.IsExpression .free i) :
    (∃ stream, TokenStream.ofSource (arena.render i) = .ok stream ∧
      Reads (expression resolve stream.lexemes) (·.bare = arena.term i) []) ∧
    ∃ tree, Tree.ofSource resolve file (returning (arena.render i)) = .ok tree ∧
      tree.term tree.root = (arena.term i).returned := by
  have hSpells : Spells (arena.render i) (arena.lexemes i) := h.spells
  have hRead : IsRead resolve (arena.lexemes i) (arena.term i) := h.isReadBack.isRead rfl
  constructor
  · have hCuts := hSpells [] [] (by simp [Lexer.Breaks]) .nil
    rw [List.append_nil, List.append_nil] at hCuts
    obtain ⟨stream, hStream, hLexemes⟩ := hCuts .origin
    have hAll := hRead [] (by simp [IsClosing])
    rw [List.append_nil] at hAll
    refine ⟨stream, hStream, ?_⟩
    rw [hLexemes]
    exact hAll
  · obtain ⟨stream, hStream, hLexemes⟩ := hSpells.cuts_returning .origin
    obtain ⟨first, more, hFirst, hOpens, -⟩ := h.begins_lexemes
    have hSemicolon : first ≠ .symbol .semicolon := by
      rintro rfl
      exact absurd hOpens (by decide)
    obtain ⟨unit, hUnit, hBare⟩ :=
      hRead.compilationUnit_returning (by simp [hFirst]) hSemicolon
    rw [← hLexemes] at hUnit
    obtain ⟨tree, hTree, hSource⟩ := Tree.exists_ofSource hStream hUnit file
    refine ⟨tree, hSource, ?_⟩
    rw [(Term.isTree_toTree hTree).term_eq_bare, Term.IsTree.subterm_root, hBare]

/-- The tree of `x => await r?.Get(out var v, key: !x) is not null ? -1 : "none"`. -/
def lambdaOverCall : Arena where
  size := 15
  node i := #v[.parameter "x" none, .identifier "r", .memberBinding "Get", .outVariable "v" none,
    .identifier "x", .unary .not 4, .invocation 2 [⟨none, 3⟩, ⟨some "key", 5⟩],
    .conditionalAccess 1 6, .await 7, .isPattern 8 .notNull, .literal (.int 1), .unary .negate 10,
    .literal (.str "none"), .conditional 9 11 12, .lambda [0] 13 false][i]
  root := 14
  parent i := #v[some 14, some 7, some 6, some 6, some 5, some 6, some 7, some 8, some 9, some 13,
    some 11, some 13, some 13, some 14, none][i]
  depth i := #v[1, 5, 6, 6, 7, 6, 5, 4, 3, 2, 3, 2, 2, 1, 0][i]
  parent_eq_some_iff := by decide
  children_nodup := by decide
  parent_root := by decide
  depth_of_parent := by decide
  depth_le_size := by decide

theorem isExpression_lambdaOverCall : lambdaOverCall.IsExpression .free lambdaOverCall.root := by
  have hRead : lambdaOverCall.IsExpression .free (4 : Fin 15) := .identifier rfl (by decide)
  have hBinding : lambdaOverCall.IsExpression .bound (2 : Fin 15) := .memberBinding rfl (by decide)
  have hNot : lambdaOverCall.IsExpression .free (5 : Fin 15) := .unary rfl hRead (by decide)
  have hOut : lambdaOverCall.IsExpression .argument (3 : Fin 15) := .outVariable rfl (by decide)
  have hCall : lambdaOverCall.IsExpression .bound (6 : Fin 15) := by
    have hKey : isName "key" = true := by decide
    refine .invocation rfl hBinding (by decide) ?_ ?_ (by decide)
    · refine List.forall_mem_cons.2 ⟨by simp, List.forall_mem_singleton.2 ?_⟩
      rintro _ ⟨⟩
      exact hKey
    · exact List.forall_mem_cons.2 ⟨hOut, List.forall_mem_singleton.2 (.value hNot)⟩
  have hAccess : lambdaOverCall.IsExpression .free (7 : Fin 15) :=
    .conditionalAccess rfl (.identifier rfl (by decide)) (by decide) hCall (by decide)
  have hTest : lambdaOverCall.IsExpression .free (9 : Fin 15) :=
    .isPattern rfl (.await rfl hAccess (by decide)) (by decide) (by decide)
  have hMinus : lambdaOverCall.IsExpression .free (11 : Fin 15) :=
    .unary rfl (.literal rfl (by decide)) (by decide)
  have hChoice : lambdaOverCall.IsExpression .free (13 : Fin 15) :=
    .conditional rfl hTest hMinus (.literal rfl (by decide)) (by decide)
  have hName : isName "x" = true := by decide
  exact .lambda rfl (List.forall_mem_singleton.2 ⟨"x", rfl, hName⟩) hChoice

open StateGuard.Parser in
/-- A lambda over a test of a conditional call is read back. -/
theorem lambda_over_call_is_read_back :
    lambdaOverCall.IsExpression .free lambdaOverCall.root ∧
      lambdaOverCall.render lambdaOverCall.root =
        "x => await r?.Get(out var v, key: !x) is not null ? -1 : \"none\"" ∧
      (∃ stream, TokenStream.ofSource (lambdaOverCall.render lambdaOverCall.root) = .ok stream ∧
        Reads (expression id stream.lexemes)
          (·.bare = lambdaOverCall.term lambdaOverCall.root) []) ∧
      ∃ tree, Tree.ofSource id "lambda.cs" (returning (lambdaOverCall.render lambdaOverCall.root)) =
          .ok tree ∧
        tree.term tree.root = (lambdaOverCall.term lambdaOverCall.root).returned := by
  refine ⟨isExpression_lambdaOverCall, ?_, ?_⟩
  · decide +kernel
  · exact Arena.render_is_read_back id "lambda.cs" isExpression_lambdaOverCall

end StateGuard
