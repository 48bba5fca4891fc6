import StateGuard.Proofs.Source.TypeReferences

/-!
# Reading goes forward

A parser says with what it read which lexemes are left, and these are the last of those it was given: it
takes lexemes from the front and never puts one back or makes one up.  So the place that reading has got
to can be kept as a number.

## Main results

* `Parser.leaves_typeRef`, `Parser.leaves_expression`: what is left after a type or an expression.
-/

namespace StateGuard

namespace Parser

/-! ## What an attempt leaves -/

section Leaves

variable {m n : Nat} {α β : Type} {ts us : List Lexeme}

/-- A successful attempt leaves the last of some lexemes. -/
def Leaves (ts : List Lexeme) (attempt : Attempt (Parsed n α)) : Prop :=
  ∀ r, attempt = .ok r → r.rest <:+ ts

theorem Leaves.mono {attempt : Attempt (Parsed n α)} (h : Leaves ts attempt) (hSuffix : ts <:+ us) :
    Leaves us attempt := fun r hr => (h r hr).trans hSuffix

theorem Leaves.cons {t : Lexeme} {attempt : Attempt (Parsed n α)} (h : Leaves ts attempt) :
    Leaves (t :: ts) attempt := h.mono (List.suffix_cons t ts)

/-- What follows is read from what the first attempt leaves. -/
theorem Leaves.next {first : Attempt (Parsed m α)} {next : Parsed m α → Attempt (Parsed n β)}
    (hFirst : Leaves ts first)
    (hNext : ∀ value rest fits, Leaves rest (next ⟨value, rest, fits⟩)) :
    Leaves ts (first >>= next) := by
  intro r h
  obtain ⟨s, hs, hr⟩ := exists_of_bind_eq_ok h
  exact (hNext s.value s.rest s.fits r hr).trans (hFirst s hs)

theorem Leaves.stop {r : Parsed n α} : Leaves r.rest (.ok r) := by
  intro s hs
  obtain rfl := Except.ok.inj hs
  exact List.suffix_rfl

theorem Leaves.error (e : ParseError) : Leaves ts (.error e : Attempt (Parsed n α)) := by
  intro r h
  simp at h

theorem Leaves.accepted {t : Lexeme} {r : Parsed ts.length Unit} {attempt : Attempt (Parsed n α)}
    (hAccept : accept t ts = some r) (h : Leaves r.rest attempt) : Leaves ts attempt := by
  refine h.mono ?_
  conv_rhs => rw [accept_eq_some hAccept]
  exact List.suffix_cons t r.rest

end Leaves

/-! ## Lexemes and types -/

theorem leaves_expect (which : Symbol) (ts : List Lexeme) : Leaves ts (expect which ts) := by
  intro r h
  conv_rhs => rw [expect_eq_ok h]
  exact List.suffix_cons _ r.rest

theorem leaves_expectWord (what : Wanted) (ts : List Lexeme) : Leaves ts (expectWord what ts) := by
  intro r h
  conv_rhs => rw [(expectWord_eq_ok h).1]
  exact List.suffix_cons _ r.rest

theorem TakesNames.isSuffix {ts rest : List Lexeme} {names : List String}
    (h : TakesNames ts names rest) : rest <:+ ts := by
  induction h with
  | last _ => exact List.suffix_cons _ _
  | more _ _ ih => exact (ih.trans (List.suffix_cons _ _)).trans (List.suffix_cons _ _)

theorem TakesMark.isSuffix {ts rest : List Lexeme} (h : TakesMark ts rest) : rest <:+ ts := by
  cases h with
  | none => exact List.suffix_rfl
  | question => exact List.suffix_cons _ _

variable {resolve : String → String}

mutual
theorem TakesType.isSuffix {ts rest : List Lexeme} {type : TypeRef}
    (h : TakesType resolve ts type rest) : rest <:+ ts := by
  cases h with
  | named hNames hMark => exact hMark.isSuffix.trans hNames.isSuffix
  | generic hNames hArgs hMark =>
      have hInner := (List.suffix_cons _ _).trans hNames.isSuffix
      exact (hMark.isSuffix.trans hArgs.isSuffix).trans hInner

theorem TakesArguments.isSuffix {ts rest : List Lexeme} {args : List TypeRef}
    (h : TakesArguments resolve ts args rest) : rest <:+ ts := by
  cases h with
  | last hArg => exact (List.suffix_cons _ _).trans hArg.isSuffix
  | more hArg hArgs =>
      exact (hArgs.isSuffix.trans (List.suffix_cons _ _)).trans hArg.isSuffix
end

variable (resolve)

theorem leaves_typeRef (ts : List Lexeme) : Leaves ts (typeRef resolve ts) := fun _ h =>
  (takesType_of_typeRef ts h).isSuffix

theorem leaves_pattern (ts : List Lexeme) : Leaves ts (pattern ts) := by
  unfold pattern
  split
  case h_1 | h_8 => exact Leaves.error _
  case h_3 => exact Leaves.cons (Leaves.cons Leaves.stop)
  all_goals exact Leaves.cons Leaves.stop

/-! ## Parameters and names -/

theorem leaves_parameterType (ts : List Lexeme) : Leaves ts (parameterType resolve ts) := by
  unfold parameterType
  split
  · exact Leaves.stop
  · exact (leaves_typeRef resolve ts).next fun _ _ _ => Leaves.stop

theorem leaves_lambdaParameters (ts : List Lexeme) : Leaves ts (lambdaParameters resolve ts) := by
  rw [lambdaParameters.eq_def]
  split
  · exact Leaves.cons Leaves.stop
  · refine (leaves_parameterType resolve _).next fun type rest _ => ?_
    refine (leaves_expectWord _ _).next fun name rest _ => ?_
    dsimp only
    split
    · next hAccept =>
        refine Leaves.accepted hAccept ?_
        exact (leaves_lambdaParameters _).next fun _ _ _ => Leaves.stop
    · exact (leaves_expect _ _).next fun _ _ _ => Leaves.stop
termination_by ts.length
decreasing_by grind

theorem leaves_lambdaHead (ts : List Lexeme) : Leaves ts (lambdaHead resolve ts) := by
  unfold lambdaHead
  split
  · exact Leaves.cons ((leaves_lambdaParameters resolve _).next fun _ _ _ => Leaves.stop)
  · exact (leaves_expectWord _ _).next fun _ _ _ => Leaves.stop

theorem leaves_outVariable (ts : List Lexeme) : Leaves ts (outVariable resolve ts) := by
  unfold outVariable
  dsimp only
  split
  · exact Leaves.cons ((leaves_expectWord _ _).next fun _ _ _ => Leaves.stop)
  · exact (leaves_typeRef resolve _).next fun _ _ _ =>
      (leaves_expectWord _ _).next fun _ _ _ => Leaves.stop

theorem rest_skipAsync (ts : List Lexeme) : (skipAsync ts).rest <:+ ts := by
  unfold skipAsync
  split
  · exact List.suffix_cons _ _
  · exact List.suffix_rfl

theorem rest_argumentName (ts : List Lexeme) : (argumentName ts).rest <:+ ts := by
  unfold argumentName
  split
  · exact (List.suffix_cons _ _).trans (List.suffix_cons _ _)
  · exact List.suffix_rfl

theorem rest_declarationHead? {ts : List Lexeme} {r : Parsed ts.length (TypeRef × String)}
    (h : declarationHead? resolve ts = some r) : r.rest <:+ ts := by
  unfold declarationHead? at h
  split at h
  · simp at h
  · next type rest _ hType =>
      split at h
      · next name next after hRest =>
          split at h
          · obtain rfl := Option.some.inj h
            exact (List.suffix_cons _ _).trans (leaves_typeRef resolve ts _ hType)
          · simp at h
      · simp at h

/-! ## Statements and expressions -/

mutual
theorem leaves_statements (ts : List Lexeme) : Leaves ts (statements resolve ts) := by
  rw [statements.eq_def]
  split
  · exact Leaves.error _
  · exact Leaves.cons Leaves.stop
  · exact (leaves_statement _).next fun first rest _ =>
      (leaves_statements _).next fun others rest _ => Leaves.stop
termination_by 32 * ts.length + 16
decreasing_by all_goals omega

theorem leaves_block (ts : List Lexeme) : Leaves ts (block resolve ts) := by
  rw [block.eq_def]
  exact (leaves_expect _ _).next fun _ rest _ =>
    (leaves_statements _).next fun body rest _ => Leaves.stop
termination_by 32 * ts.length + 14
decreasing_by all_goals omega

theorem leaves_statement (ts : List Lexeme) : Leaves ts (statement resolve ts) := by
  rw [statement.eq_def]
  split
  · exact leaves_block _
  · refine Leaves.cons ((leaves_expect _ _).next fun _ rest _ => ?_)
    refine (leaves_expression _).next fun condition rest _ => ?_
    refine (leaves_expect _ _).next fun _ rest _ => ?_
    refine (leaves_statement _).next fun thenBranch rest _ => ?_
    dsimp only
    split
    · next hAccept =>
        refine Leaves.accepted hAccept ?_
        exact (leaves_statement _).next fun elseBranch rest _ => Leaves.stop
    · exact Leaves.stop
  · exact Leaves.cons (Leaves.cons Leaves.stop)
  · exact Leaves.cons ((leaves_expression _).next fun value rest _ =>
      (leaves_expect _ _).next fun _ rest _ => Leaves.stop)
  · dsimp only
    split
    · exact Leaves.error _
    · exact Leaves.cons (Leaves.cons (Leaves.cons ((leaves_expression _).next fun init rest _ =>
        (leaves_expect _ _).next fun _ rest _ => Leaves.stop)))
  · split
    · next hHead =>
        refine Leaves.mono ?_ (rest_declarationHead? resolve hHead)
        split
        · next hAccept =>
            refine Leaves.accepted hAccept ?_
            refine (leaves_expression _).next fun init rest _ => ?_
            exact (leaves_expect _ _).next fun _ rest _ => Leaves.stop
        · exact (leaves_expect _ _).next fun _ rest _ => Leaves.stop
    · exact (leaves_expression _).next fun expr rest _ =>
        (leaves_expect _ _).next fun _ rest _ => Leaves.stop
termination_by 32 * ts.length + 15
decreasing_by
  all_goals first
    | omega
    | (subst_vars; simp only [List.length_cons]; omega)

theorem leaves_expression (ts : List Lexeme) : Leaves ts (expression resolve ts) := by
  rw [expression.eq_def]
  split
  · exact leaves_lambda ts
  · exact leaves_conditional ts
termination_by 32 * ts.length + 13
decreasing_by all_goals omega

theorem leaves_lambda (ts : List Lexeme) : Leaves ts (lambda resolve ts) := by
  rw [lambda.eq_def]
  refine Leaves.mono ?_ (rest_skipAsync ts)
  rcases skipAsync ts with ⟨isAsync, rest, _⟩
  dsimp only
  refine (leaves_lambdaHead resolve _).next fun params rest _ => ?_
  refine (leaves_expect _ _).next fun _ rest _ => ?_
  dsimp only
  split
  · exact (leaves_block _).next fun body rest _ => Leaves.stop
  · exact (leaves_expression _).next fun body rest _ => Leaves.stop
termination_by 32 * ts.length + 12
decreasing_by all_goals omega

theorem leaves_conditional (ts : List Lexeme) : Leaves ts (conditional resolve ts) := by
  rw [conditional.eq_def]
  refine (leaves_operation 0 _).next fun condition rest _ => ?_
  dsimp only
  split
  · next hAccept =>
      refine Leaves.accepted hAccept ?_
      dsimp only
      refine (leaves_expression _).next fun whenTrue rest _ => ?_
      dsimp only
      refine (leaves_expect _ _).next fun _ rest _ => ?_
      exact (leaves_expression _).next fun whenFalse rest _ => Leaves.stop
  · exact Leaves.stop
termination_by 32 * ts.length + 11
decreasing_by
  all_goals first
    | omega
    | (unfold levels; omega)

theorem leaves_operation (level : Nat) (ts : List Lexeme) :
    Leaves ts (operation resolve level ts) := by
  rw [operation.eq_def]
  split
  · exact (leaves_operation (level + 1) _).next fun left rest _ =>
      (leaves_operationTail level _ left _).next fun whole rest _ => Leaves.stop
  · exact leaves_unary ts
termination_by 32 * ts.length + 4 + (levels - level)
decreasing_by all_goals omega

theorem leaves_operationTail (level before : Nat) (left : Term) (ts : List Lexeme) :
    Leaves ts (operationTail resolve level before left ts) := by
  rw [operationTail.eq_def]
  split
  · exact Leaves.stop
  · split
    · exact Leaves.cons ((leaves_operation (level + 1) _).next fun right rest _ =>
        (leaves_operationTail level before _ _).next fun whole rest _ => Leaves.stop)
    · split
      · exact Leaves.cons ((leaves_pattern _).next fun test rest _ =>
          (leaves_operationTail level before _ _).next fun whole rest _ => Leaves.stop)
      · exact Leaves.stop
termination_by 32 * ts.length
decreasing_by
  all_goals first
    | omega
    | (subst_vars; simp only [List.length_cons, levels]; omega)

theorem leaves_unary (ts : List Lexeme) : Leaves ts (unary resolve ts) := by
  rw [unary.eq_def]
  split
  · exact Leaves.cons ((leaves_unary _).next fun operand rest _ => Leaves.stop)
  · exact Leaves.cons ((leaves_unary _).next fun operand rest _ => Leaves.stop)
  · exact Leaves.cons ((leaves_unary _).next fun operand rest _ => Leaves.stop)
  · exact (leaves_primary _).next fun head rest _ =>
      (leaves_chain _ head _).next fun whole rest _ => Leaves.stop
termination_by 32 * ts.length + 3
decreasing_by
  all_goals first
    | omega
    | (subst_vars; simp only [List.length_cons]; omega)

theorem leaves_chain (before : Nat) (head : Term) (ts : List Lexeme) :
    Leaves ts (chain resolve before head ts) := by
  rw [chain.eq_def]
  split
  · exact Leaves.cons ((leaves_expectWord _ _).next fun member rest _ =>
      (leaves_chain before _ _).next fun whole rest _ => Leaves.stop)
  · exact Leaves.cons ((leaves_arguments _).next fun args rest _ =>
      (leaves_chain before _ _).next fun whole rest _ => Leaves.stop)
  · exact Leaves.cons ((leaves_expectWord _ _).next fun member rest _ =>
      (leaves_chain _ _ _).next fun inner rest _ => Leaves.stop)
  · exact Leaves.stop
termination_by 32 * ts.length
decreasing_by
  all_goals first
    | omega
    | (subst_vars; simp only [List.length_cons]; omega)

theorem leaves_arguments (ts : List Lexeme) : Leaves ts (arguments resolve ts) := by
  rw [arguments.eq_def]
  split
  · exact Leaves.cons Leaves.stop
  · refine Leaves.mono ?_ (rest_argumentName _)
    rcases argumentName _ with ⟨name, rest, _⟩
    dsimp only
    refine (leaves_argument _).next fun value rest _ => ?_
    dsimp only
    split
    · next hAccept =>
        refine Leaves.accepted hAccept ?_
        exact (leaves_arguments _).next fun args rest _ => Leaves.stop
    · exact (leaves_expect _ _).next fun _ rest _ => Leaves.stop
termination_by 32 * ts.length + 15
decreasing_by all_goals omega

theorem leaves_argument (ts : List Lexeme) : Leaves ts (argument resolve ts) := by
  rw [argument.eq_def]
  split
  · exact Leaves.cons ((leaves_outVariable resolve _).next fun target rest _ => Leaves.stop)
  · exact leaves_expression _
termination_by 32 * ts.length + 14
decreasing_by all_goals omega

theorem leaves_primary (ts : List Lexeme) : Leaves ts (primary resolve ts) := by
  rw [primary.eq_def]
  split
  · exact Leaves.error _
  · exact Leaves.cons ((leaves_expression _).next fun inner rest _ =>
      (leaves_expect _ _).next fun _ rest _ => Leaves.stop)
  · split
    · exact Leaves.cons Leaves.stop
    · exact Leaves.error _
termination_by 32 * ts.length + 1
decreasing_by
  all_goals first
    | omega
    | (subst_vars; simp only [List.length_cons]; omega)
end

end Parser

end StateGuard
