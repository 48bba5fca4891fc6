import StateGuard.Proofs.Syntax.Expressions

/-!
# Looking ahead for a lambda

Whether a lambda comes next is decided before anything is read: by an arrow behind one name, or behind
the parenthesis that closes the first one.  The parentheses of an expression are balanced, so the search
for the closing one passes over it, and what it finds behind the expression tells lambdas from the rest.

## Main results

* `Arena.IsExpression.isBalanced`: the search for a closing parenthesis passes over an expression.
* `Arena.IsExpression.startsLambda_of_lambda`, `Arena.IsExpression.not_startsLambda`: looking ahead tells
  lambdas from all other expressions.
-/

namespace StateGuard

namespace Parser

/-! ## Balanced parentheses -/

/-- The search for a closing parenthesis passes over the lexemes. -/
def IsBalanced (ls : List Lexeme) : Prop :=
  ∀ depth ts, arrowAfterClosing (depth + 1) (ls ++ ts) = arrowAfterClosing (depth + 1) ts

namespace IsBalanced

variable {ls ms : List Lexeme} {t : Lexeme}

theorem nil : IsBalanced [] := fun _ _ => rfl

theorem cons (hLeft : t ≠ .symbol .leftParen) (hRight : t ≠ .symbol .rightParen)
    (h : IsBalanced ls) : IsBalanced (t :: ls) := by
  intro depth ts
  rw [List.cons_append, arrowAfterClosing]
  · exact h depth ts
  · exact hLeft
  · exact hRight

theorem append (h : IsBalanced ls) (h' : IsBalanced ms) : IsBalanced (ls ++ ms) := by
  intro depth ts
  rw [List.append_assoc, h, h']

theorem parens (h : IsBalanced ls) :
    IsBalanced (.symbol .leftParen :: (ls ++ [.symbol .rightParen])) := by
  intro depth ts
  rw [List.cons_append, arrowAfterClosing, List.append_assoc, h, List.singleton_append,
    arrowAfterClosing]
  simp

theorem separated {rows : List (List Lexeme)} (h : ∀ row ∈ rows, IsBalanced row) :
    IsBalanced (separated rows) := by
  induction rows with
  | nil => exact nil
  | cons row rows ih =>
      have hFirst := h row List.mem_cons_self
      have hOthers := ih fun r hr => h r (List.mem_cons_of_mem row hr)
      cases rows with
      | nil => simpa using hFirst
      | cons next rows =>
          have hAll := hFirst.append (cons (t := .symbol .comma) (by decide) (by decide) hOthers)
          simpa [separated_cons_cons] using hAll

/-- A lexeme that is no symbol. -/
theorem single (hSymbol : ∀ which, t ≠ .symbol which) : IsBalanced [t] :=
  cons (hSymbol _) (hSymbol _) nil

end IsBalanced

end Parser

namespace Arena.IsExpression

open StateGuard.Parser

variable {arena : Arena} {slot : Slot} {i : arena.Id}

theorem isBalanced_parameterLexemes {params : List arena.Id}
    (hParams : ∀ p ∈ params, ∃ name, arena.node p = .parameter name none ∧ isName name = true) :
    IsBalanced (parameterLexemes (params.map arena.lexemes)) ∧
      IsBalanced (separated (params.map arena.lexemes)) := by
  have hRow : ∀ row ∈ params.map arena.lexemes, IsBalanced row := by
    intro row hRow
    obtain ⟨p, hp, rfl⟩ := List.mem_map.1 hRow
    obtain ⟨name, hNode, -⟩ := hParams p hp
    rw [lexemes_eq hNode]
    exact .single (by simp)
  refine ⟨?_, .separated hRow⟩
  unfold parameterLexemes
  split
  · next hOne => exact hRow _ (by simp [hOne])
  · exact .parens (.separated hRow)

/-- **The parentheses of an expression are balanced.** -/
theorem isBalanced (h : arena.IsExpression slot i) : IsBalanced (arena.lexemes i) := by
  induction h with
  | identifier hNode | this hNode | memberBinding hNode =>
      rw [lexemes_eq hNode]
      exact .single (by simp)
  | literal hNode =>
      rw [lexemes_eq hNode]
      exact .single (Literal.lexeme_ne_symbol _)
  | parenthesized hNode _ ih =>
      rw [lexemes_eq hNode]
      exact ih.parens
  | memberAccess hNode _ _ _ _ ih =>
      rw [lexemes_eq hNode]
      exact ih.append (.cons (by simp) (by simp) (.single (by simp)))
  | conditionalAccess hNode _ _ _ _ ihReceiver ihRest =>
      rw [lexemes_eq hNode]
      exact ihReceiver.append (.cons (by simp) (by simp) ihRest)
  | @invocation slot i callee args hNode _ _ _ _ _ ihCallee ihArgs =>
      rw [lexemes_eq hNode, Node.map_invocation, Node.lexemes, List.map_map]
      refine ihCallee.append (.parens (.separated ?_))
      intro row hRow
      obtain ⟨arg, hArg, rfl⟩ := List.mem_map.1 hRow
      obtain ⟨name?, value⟩ := arg
      cases name? with
      | none => exact ihArgs _ hArg
      | some name => exact .cons (by simp) (by simp) (.cons (by simp) (by simp) (ihArgs _ hArg))
  | @unary i operand op hNode _ _ ih =>
      rw [lexemes_eq hNode]
      exact .cons (by cases op <;> decide) (by cases op <;> decide) ih
  | await hNode _ _ ih =>
      rw [lexemes_eq hNode]
      exact .cons (by simp) (by simp) ih
  | @binary i left right op hNode _ _ _ _ ihLeft ihRight =>
      rw [lexemes_eq hNode]
      exact ihLeft.append (.cons (by cases op <;> decide) (by cases op <;> decide) ihRight)
  | @isPattern i operand test hNode _ _ _ ih =>
      rw [lexemes_eq hNode]
      refine ih.append (.cons (by simp) (by simp) ?_)
      cases test with
      | null => exact .single (by simp)
      | notNull => exact .cons (by simp) (by simp) (.single (by simp))
      | literal value => exact .single value.lexeme_ne_symbol
  | conditional hNode _ _ _ _ ihCondition ihTrue ihFalse =>
      rw [lexemes_eq hNode]
      exact ihCondition.append (.cons (by simp) (by simp)
        (ihTrue.append (.cons (by simp) (by simp) ihFalse)))
  | @lambda i body params isAsync hNode hParams _ ih =>
      have hRest := (isBalanced_parameterLexemes hParams).1.append
        (.cons (t := .symbol .arrow) (by simp) (by simp) ih)
      rw [lexemes_eq hNode, Node.map_lambda]
      cases isAsync with
      | false => exact hRest
      | true => exact .cons (by simp) (by simp) hRest
  | value _ ih => exact ih
  | outVariable hNode =>
      rw [lexemes_eq hNode]
      exact .cons (by simp) (by simp) (.cons (by simp) (by simp) (.single (by simp)))

/-! ## Lambdas -/

theorem startsLambda_of_ne {ts : List Lexeme} (h : ts.head? ≠ some (.word "async")) :
    startsLambda ts = startsParameters ts := by
  rw [startsLambda]
  rintro rest rfl
  simp at h

/-- The parameters of a lambda are told by the arrow behind them. -/
theorem startsParameters_of_params {params : List arena.Id}
    (hParams : ∀ p ∈ params, ∃ name, arena.node p = .parameter name none ∧ isName name = true)
    (ts : List Lexeme) :
    startsParameters (parameterLexemes (params.map arena.lexemes) ++ .symbol .arrow :: ts) = true := by
  have hBalanced := (isBalanced_parameterLexemes hParams).2
  unfold parameterLexemes
  split
  · next row hOne =>
      obtain ⟨p, rfl, rfl⟩ := List.map_eq_singleton_iff.1 hOne
      obtain ⟨name, hNode, hName⟩ := hParams p List.mem_cons_self
      simp only [isName, Bool.and_eq_true] at hName
      rw [lexemes_eq hNode]
      exact hName.2
  · have hClosing := hBalanced 0 ([.symbol .rightParen] ++ .symbol .arrow :: ts)
    rw [List.cons_append, startsParameters, List.append_assoc, hClosing]
    rfl

/-- **A lambda is told by looking ahead.** -/
theorem startsLambda_of_lambda {params : List arena.Id} {body : arena.Id} {isAsync : Bool}
    (hNode : arena.node i = .lambda params body isAsync)
    (hParams : ∀ p ∈ params, ∃ name, arena.node p = .parameter name none ∧ isName name = true)
    (rest : List Lexeme) : startsLambda (arena.lexemes i ++ rest) = true := by
  have hStarts := startsParameters_of_params hParams (arena.lexemes body ++ rest)
  have hLexemes := lexemes_eq hNode
  rw [Node.map_lambda, Node.lexemes] at hLexemes
  cases isAsync with
  | true =>
      rw [hLexemes]
      simpa [startsLambda] using hStarts
  | false =>
      obtain ⟨t, ts, hHead, hPrimary, -⟩ :=
        exists_cons_parameterLexemes hParams (arena.lexemes body ++ rest)
      have hText : arena.lexemes i ++ rest = t :: ts := by simp [hLexemes, ← hHead]
      rw [hText, startsLambda_of_ne, ← hHead]
      · exact hStarts
      · rw [List.head?_cons, ne_eq, Option.some.injEq]
        rintro rfl
        exact absurd hPrimary (by decide)

/-- **No other expression is taken for a lambda.** -/
theorem not_startsLambda (h : arena.IsExpression .free i) (hKind : (arena.node i).kind ≠ .lambda)
    {rest : List Lexeme} (hRest : rest.head? ≠ some (.symbol .arrow)) :
    startsLambda (arena.lexemes i ++ rest) = false := by
  refine induction_first (motive := fun i => (arena.node i).kind ≠ .lambda → ∀ rest : List Lexeme,
    rest.head? ≠ some (.symbol .arrow) → startsLambda (arena.lexemes i ++ rest) = false)
    ?_ ?_ ?_ ?_ ?_ h rfl hKind rest hRest
  · intro i t hLexemes hPrimary hSymbol _ rest hRest
    rw [hLexemes, startsLambda_of_ne]
    · cases t with
      | word name =>
          cases rest with
          | nil => rfl
          | cons u rest =>
              rw [List.singleton_append, startsParameters]
              · simpa using hRest
              · simp
      | int | text => rfl
      | symbol which => exact absurd rfl (hSymbol which)
    · rintro hAsync
      obtain rfl : t = .word "async" := by simpa using hAsync
      exact absurd hPrimary (by decide)
  · intro i inner hInner hLexemes _ _ rest hRest
    have hClosing := hInner.isBalanced 0 (.symbol .rightParen :: rest)
    rw [hLexemes, startsLambda_of_ne (by simp), List.cons_append, startsParameters,
      List.append_assoc, List.singleton_append, hClosing, arrowAfterClosing]
    simpa using hRest
  · intro i operand t hLexemes hSign _ _ _ rest _
    simp only [Lexeme.opensOperation, Bool.or_eq_true, beq_iff_eq] at hSign
    rw [hLexemes]
    rcases hSign with (rfl | rfl) | rfl
    · rfl
    · rfl
    · rw [List.cons_append, startsLambda_of_ne (by simp), startsParameters.eq_def]
      split <;> simp_all [isKeyword, keywords]
  · intro i body params isAsync hNode _ hKind
    simp [hNode, Node.kind] at hKind
  · intro i first t ts hLexemes hJoins hRank _ ih _ rest _
    rw [hLexemes, List.append_assoc]
    refine ih (Node.kind_ne_lambda hRank) _ ?_
    simp only [List.cons_append, List.head?_cons, ne_eq, Option.some.injEq]
    rintro rfl
    exact absurd hJoins (by decide)

end Arena.IsExpression

end StateGuard
