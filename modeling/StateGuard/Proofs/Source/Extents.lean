import StateGuard.Proofs.Source.Programs

/-!
# What the parser covers

Every term that the parser reads says how many lexemes were left where it began and how many are left
behind it.  These extents nest: a term covers something, its parts lie inside it one after the other,
and no part covers all of it, because each construct has a lexeme of its own or a second part.  Errors
show at a lexeme that the parser was given, or behind the last one.

`Ends` states both ways an attempt can end, and each parser is proved from those it calls, along its own
recursion.

## Main results

* `Parser.ends_expression`, `Parser.ends_statement`, `Parser.ends_member`: a reading covers exactly the
  lexemes between its two ends.
* `Parser.inOrder_members`: the members of a unit follow each other from its first lexeme to its last.
* `Parser.left_le_of_members_error`: an error shows within the text.
-/

namespace StateGuard

namespace Term

/-! ## Nested extents -/

/-- The terms lie one after the other between two places, given in lexemes left. -/
def Spaced : Nat → List Term → Nat → Prop
  | before, [], after => after ≤ before
  | before, t :: ts, after =>
    t.extent.before ≤ before ∧ t.extent.after ≤ t.extent.before ∧ Spaced t.extent.after ts after

/-- The term covers something, and its parts lie inside it one after the other, none covering all of
it. -/
structure IsTight (t : Term) : Prop where
  covers : t.extent.after < t.extent.before
  spaced : Spaced t.extent.before t.node.children t.extent.after
  strict : ∀ c ∈ t.node.children, c.extent ≠ t.extent

/-- Every term in a term is tight. -/
def IsNested (t : Term) : Prop := ∀ s ∈ t.postorder, s.IsTight

theorem isNested_iff {t : Term} :
    t.IsNested ↔ (∀ c ∈ t.node.children, c.IsNested) ∧ t.IsTight := by
  unfold IsNested
  rw [postorder_eq]
  simp only [List.mem_append, List.mem_flatMap, List.mem_singleton]
  constructor
  · intro h
    exact ⟨fun c hc s hs => h s (.inl ⟨c, hc, hs⟩), h t (.inr rfl)⟩
  · rintro ⟨hParts, hSelf⟩ s (⟨c, hc, hs⟩ | rfl)
    · exact hParts c hc s hs
    · exact hSelf

/-- A nested term between two places. -/
structure IsPlaced (t : Term) (before after : Nat) : Prop where
  nested : t.IsNested
  extent_eq : t.extent = ⟨before, after⟩

theorem IsPlaced.lt {t : Term} {before after : Nat} (h : t.IsPlaced before after) :
    after < before := by
  have hCovers := (isNested_iff.1 h.nested).2.covers
  rwa [h.extent_eq] at hCovers

/-- Nested terms one after the other between two places. -/
structure InOrder (before : Nat) (ts : List Term) (after : Nat) : Prop where
  spaced : Spaced before ts after
  nested : ∀ t ∈ ts, t.IsNested

namespace InOrder

variable {before middle after : Nat} {t : Term} {ts us : List Term}

theorem nil (h : after ≤ before) : InOrder before [] after := ⟨h, by simp⟩

theorem cons {b a : Nat} (ht : t.IsPlaced b a) (hb : b ≤ before) (h : InOrder a ts after) :
    InOrder before (t :: ts) after := by
  have hLt := ht.lt
  refine ⟨?_, List.forall_mem_cons.2 ⟨ht.nested, h.nested⟩⟩
  simp only [Spaced, ht.extent_eq]
  exact ⟨hb, Nat.le_of_lt hLt, h.spaced⟩

theorem append (h : InOrder before ts middle) (h' : InOrder middle us after) :
    InOrder before (ts ++ us) after := by
  refine ⟨?_, List.forall_mem_append.2 ⟨h.nested, h'.nested⟩⟩
  have hSpaced := h.spaced
  clear h
  induction ts generalizing before with
  | nil =>
      cases us with
      | nil => exact Nat.le_trans h'.spaced hSpaced
      | cons u us => exact ⟨Nat.le_trans h'.spaced.1 hSpaced, h'.spaced.2⟩
  | cons t ts ih => exact ⟨hSpaced.1, hSpaced.2.1, ih hSpaced.2.2⟩

end InOrder

/-- Terms in a row lie between the places where the row begins and ends. -/
theorem Spaced.bounds {before after : Nat} {ts : List Term} (h : Spaced before ts after) :
    after ≤ before ∧ ∀ t ∈ ts, t.extent.before ≤ before ∧ after ≤ t.extent.after := by
  induction ts generalizing before with
  | nil => exact ⟨h, by simp⟩
  | cons t ts ih =>
      obtain ⟨hBefore, hCovers, hRest⟩ := h
      obtain ⟨hAfter, hEach⟩ := ih hRest
      refine ⟨by omega, ?_⟩
      intro u hu
      rcases List.mem_cons.1 hu with rfl | hu
      · exact ⟨hBefore, hAfter⟩
      · have := hEach u hu
        omega

end Term

namespace Parser

open Term

/-! ## How attempts end -/

section Ends

variable {l m n : Nat} {α β : Type} {P : α → Nat → Prop} {Q : β → Nat → Prop}

/-- An attempt on `n` lexemes fails at one of them or behind the last, or it has a value that fits the
number of lexemes left. -/
structure Ends (n : Nat) (attempt : Attempt (Parsed l α)) (P : α → Nat → Prop) : Prop where
  error : ∀ e, attempt = .error e → e.left ≤ n
  ok : ∀ r, attempt = .ok r → P r.value r.rest.length

theorem Ends.mono {attempt : Attempt (Parsed l α)} (h : Ends m attempt P) (hLe : m ≤ n) :
    Ends n attempt P :=
  ⟨fun e he => Nat.le_trans (h.error e he) hLe, h.ok⟩

theorem Ends.bind {k : Nat} {first : Attempt (Parsed k α)} {next : Parsed k α → Attempt (Parsed l β)}
    (hFirst : Ends m first P) (hLe : m ≤ n)
    (hNext : ∀ value rest fits, P value rest.length → Ends n (next ⟨value, rest, fits⟩) Q) :
    Ends n (first >>= next) Q := by
  cases hAttempt : first with
  | error e =>
      refine ⟨?_, by simp [Bind.bind, Except.bind]⟩
      rintro e' he'
      obtain rfl : e = e' := Except.error.inj he'
      exact Nat.le_trans (hFirst.error e hAttempt) hLe
  | ok r => exact hNext r.value r.rest r.fits (hFirst.ok r hAttempt)

theorem Ends.done {r : Parsed l α} (h : P r.value r.rest.length) : Ends n (.ok r) P := by
  refine ⟨by simp, ?_⟩
  intro s hs
  obtain rfl := Except.ok.inj hs
  exact h

theorem Ends.fail {e : ParseError} (h : e.left ≤ n) :
    Ends n (.error e : Attempt (Parsed l α)) P := by
  refine ⟨?_, by simp⟩
  intro e' he
  obtain rfl := Except.error.inj he
  exact h

end Ends

/-- Nothing is said of the value that is read. -/
abbrev anything {α : Type} : α → Nat → Prop := fun _ _ => True

/-! ## Lexemes and types -/

theorem ends_expect (which : Symbol) (ts : List Lexeme) :
    Ends ts.length (expect which ts) anything := by
  unfold expect
  split
  · exact Ends.fail (Nat.le_refl _)
  · split
    · exact Ends.done trivial
    · exact Ends.fail (Nat.le_refl _)

theorem ends_expectWord (what : Wanted) (ts : List Lexeme) :
    Ends ts.length (expectWord what ts) anything := by
  unfold expectWord
  split
  · split
    · exact Ends.fail (Nat.le_refl _)
    · exact Ends.done trivial
  · exact Ends.fail (Nat.le_refl _)

theorem ends_qualifiedName (ts : List Lexeme) : Ends ts.length (qualifiedName ts) anything := by
  rw [qualifiedName.eq_def]
  refine (ends_expectWord _ _).bind (Nat.le_refl _) fun name rest _ _ => ?_
  dsimp only
  split
  · next hRest =>
      refine (ends_qualifiedName _).bind ?_ fun names rest _ _ => Ends.done trivial
      simp only [List.length_cons] at *
      omega
  · exact Ends.done trivial
termination_by ts.length
decreasing_by
  simp only [List.length_cons] at *
  omega

variable (resolve : String → String)

mutual
theorem ends_typeRef (ts : List Lexeme) : Ends ts.length (typeRef resolve ts) anything := by
  rw [typeRef.eq_def]
  refine (ends_qualifiedName _).bind (Nat.le_refl _) fun names rest _ _ => ?_
  dsimp only
  split
  · refine (ends_typeArguments _).bind (by omega) fun args rest _ _ => ?_
    exact Ends.done trivial
  · exact Ends.done trivial
termination_by 2 * ts.length
decreasing_by omega

theorem ends_typeArguments (ts : List Lexeme) :
    Ends ts.length (typeArguments resolve ts) anything := by
  rw [typeArguments.eq_def]
  refine (ends_typeRef _).bind (Nat.le_refl _) fun arg rest _ _ => ?_
  dsimp only
  split
  · exact (ends_typeArguments _).bind (by omega) fun args rest _ _ => Ends.done trivial
  · exact (ends_expect _ _).bind (by omega) fun _ rest _ _ => Ends.done trivial
termination_by 2 * ts.length + 1
decreasing_by all_goals omega
end

theorem ends_pattern (ts : List Lexeme) : Ends ts.length (pattern ts) anything := by
  unfold pattern
  split
  case h_1 => exact Ends.fail (Nat.le_refl _)
  case h_8 => exact Ends.fail (by simp)
  all_goals exact Ends.done trivial

theorem ends_memberType (ts : List Lexeme) : Ends ts.length (memberType resolve ts) anything := by
  unfold memberType
  split
  · exact Ends.done trivial
  · exact (ends_typeRef resolve _).bind (Nat.le_refl _) fun type rest _ _ => Ends.done trivial

/-! ## Terms -/

section Spanning

variable {before : Nat} {node : Node Term} {rest : List Lexeme}

/-- **A node over terms in a row** is placed, if it covers more than each of them. -/
theorem isPlaced_spanning (hCovers : rest.length < before)
    (hOrder : InOrder before node.children rest.length)
    (hStrict : ∀ c ∈ node.children, c.extent ≠ ⟨before, rest.length⟩) :
    (spanning before node rest).IsPlaced before rest.length :=
  ⟨isNested_iff.2 ⟨hOrder.nested, hCovers, hOrder.spaced, hStrict⟩, rfl⟩

/-- A node without parts. -/
theorem isPlaced_leaf (hLeaf : node.children = []) (hCovers : rest.length < before) :
    (spanning before node rest).IsPlaced before rest.length := by
  refine isPlaced_spanning hCovers ?_ (by simp [hLeaf])
  rw [hLeaf]
  exact InOrder.nil (Nat.le_of_lt hCovers)

/-- A node over terms in a row that begins before them or ends behind them. -/
theorem isPlaced_around {b a : Nat} (hOrder : InOrder b node.children a) (hBefore : b ≤ before)
    (hAfter : rest.length ≤ a) (hMore : b < before ∨ rest.length < a) :
    (spanning before node rest).IsPlaced before rest.length := by
  have hBounds := hOrder.spaced.bounds
  refine isPlaced_spanning (by omega) ?_ ?_
  · have hFront : InOrder before ([] ++ node.children) a := (InOrder.nil hBefore).append hOrder
    have hBack := hFront.append (InOrder.nil hAfter)
    simpa using hBack
  · intro c hc hEq
    have := hBounds.2 c hc
    rw [hEq] at this
    simp only at this
    omega

/-- A node over one term. -/
theorem isPlaced_one {t : Term} {b a : Nat} (hChildren : node.children = [t]) (ht : t.IsPlaced b a)
    (hBefore : b ≤ before) (hAfter : rest.length ≤ a) (hMore : b < before ∨ rest.length < a) :
    (spanning before node rest).IsPlaced before rest.length := by
  refine isPlaced_around ?_ hBefore hAfter hMore
  rw [hChildren]
  exact .cons ht (Nat.le_refl _) (.nil (Nat.le_refl _))

/-- A node over terms in a row, the last of which stands apart from the others. -/
theorem isPlaced_row {ts : List Term} {t : Term} {m b a : Nat} (hChildren : node.children = ts ++ [t])
    (hRow : InOrder before ts m) (ht : t.IsPlaced b a) (hGap : b ≤ m) (hApart : b < before)
    (hAfter : rest.length ≤ a) :
    (spanning before node rest).IsPlaced before rest.length := by
  have hBounds := hRow.spaced.bounds
  have hCovers := ht.lt
  refine isPlaced_spanning (by omega) ?_ ?_
  · rw [hChildren]
    exact hRow.append (.cons ht hGap (.nil hAfter))
  · rw [hChildren]
    intro c hc hEq
    rcases List.mem_append.1 hc with hc | hc
    · have := hBounds.2 c hc
      rw [hEq] at this
      simp only at this
      omega
    · rw [List.mem_singleton.1 hc, ht.extent_eq, Extent.mk.injEq] at hEq
      omega

end Spanning

/-! ## Parameters -/

theorem ends_parameters (ts : List Lexeme) :
    Ends ts.length (parameters resolve ts) (InOrder ts.length) := by
  rw [parameters.eq_def]
  refine (ends_typeRef resolve _).bind (Nat.le_refl _) fun type rest _ _ => ?_
  refine (ends_expectWord _ _).bind (by omega) fun name rest _ _ => ?_
  have hParam : (spanning ts.length (.parameter name (some type)) rest).IsPlaced ts.length
      rest.length := isPlaced_leaf rfl (by omega)
  dsimp only
  split
  · refine (ends_parameters _).bind (by omega) fun params rest _ hParams => Ends.done ?_
    dsimp only
    exact .cons hParam (Nat.le_refl _) (InOrder.append (.nil (by omega)) hParams)
  · refine (ends_expect _ _).bind (by omega) fun _ rest _ _ => Ends.done ?_
    dsimp only
    exact .cons hParam (Nat.le_refl _) (.nil (by omega))
termination_by ts.length
decreasing_by omega

theorem ends_parameterType (ts : List Lexeme) :
    Ends ts.length (parameterType resolve ts) anything := by
  unfold parameterType
  split
  · exact Ends.done trivial
  · exact (ends_typeRef resolve _).bind (Nat.le_refl _) fun type rest _ _ => Ends.done trivial

theorem ends_lambdaParameters (ts : List Lexeme) :
    Ends ts.length (lambdaParameters resolve ts) (InOrder ts.length) := by
  rw [lambdaParameters.eq_def]
  split
  · exact Ends.done (.nil (by simp))
  · refine (ends_parameterType resolve _).bind (Nat.le_refl _) fun type rest _ _ => ?_
    refine (ends_expectWord _ _).bind (by omega) fun name rest _ _ => ?_
    have hParam : (spanning ts.length (.parameter name type) rest).IsPlaced ts.length
        rest.length := isPlaced_leaf rfl (by omega)
    dsimp only
    split
    · refine (ends_lambdaParameters _).bind (by omega) fun params rest _ hParams => Ends.done ?_
      dsimp only
      exact .cons hParam (Nat.le_refl _) (InOrder.append (.nil (by omega)) hParams)
    · refine (ends_expect _ _).bind (by omega) fun _ rest _ _ => Ends.done ?_
      dsimp only
      exact .cons hParam (Nat.le_refl _) (.nil (by omega))
termination_by ts.length
decreasing_by omega

theorem ends_lambdaHead (ts : List Lexeme) :
    Ends ts.length (lambdaHead resolve ts) (InOrder ts.length) := by
  unfold lambdaHead
  split
  · refine (ends_lambdaParameters resolve _).bind (by simp) fun params rest _ hParams => Ends.done ?_
    dsimp only
    exact InOrder.append (.nil (by simp)) hParams
  · refine (ends_expectWord _ _).bind (Nat.le_refl _) fun name rest _ _ => Ends.done ?_
    dsimp only
    exact .cons (isPlaced_leaf rfl (by omega)) (Nat.le_refl _) (.nil (Nat.le_refl _))

theorem ends_parameterList (ts : List Lexeme) :
    Ends ts.length (parameterList resolve ts) (InOrder ts.length) := by
  unfold parameterList
  split
  · exact Ends.done (.nil (by simp))
  · exact ends_parameters resolve _

/-! ## Statements and expressions -/

theorem ends_outVariable (ts : List Lexeme) :
    Ends ts.length (outVariable resolve ts) fun t => t.IsPlaced (ts.length + 1) := by
  unfold outVariable
  dsimp only
  split
  · refine (ends_expectWord _ _).bind (by simp) fun name rest _ _ => Ends.done ?_
    dsimp only
    exact isPlaced_leaf rfl (by simp only [List.length_cons] at *; omega)
  · refine (ends_typeRef resolve _).bind (Nat.le_refl _) fun type rest _ _ => ?_
    dsimp only
    refine (ends_expectWord _ _).bind (by omega) fun name rest _ _ => Ends.done ?_
    dsimp only
    exact isPlaced_leaf rfl (by omega)

theorem children_atom {t : Lexeme} {node : Node Term} (h : atom t = .ok node) :
    node.children = [] := by
  unfold atom at h
  split at h
  case h_5 =>
    split at h
    · simp at h
    · obtain rfl := Except.ok.inj h
      rfl
  case h_8 => simp at h
  all_goals
    obtain rfl := Except.ok.inj h
    rfl

mutual
theorem ends_statements (ts : List Lexeme) :
    Ends ts.length (statements resolve ts) (InOrder ts.length) := by
  rw [statements.eq_def]
  split
  · exact Ends.fail (Nat.zero_le _)
  · exact Ends.done (.nil (by simp))
  · refine (ends_statement _).bind (Nat.le_refl _) fun first rest _ hFirst => ?_
    dsimp only
    refine (ends_statements _).bind (by omega) fun others rest _ hOthers => Ends.done ?_
    exact .cons hFirst (Nat.le_refl _) hOthers
termination_by 32 * ts.length + 16
decreasing_by all_goals omega

theorem ends_block (ts : List Lexeme) :
    Ends ts.length (block resolve ts) fun t => t.IsPlaced ts.length := by
  rw [block.eq_def]
  refine (ends_expect _ _).bind (Nat.le_refl _) fun _ rest _ _ => ?_
  dsimp only
  refine (ends_statements _).bind (by omega) fun body rest _ hBody => Ends.done ?_
  exact isPlaced_around hBody (by omega) (Nat.le_refl _) (by omega)
termination_by 32 * ts.length + 14
decreasing_by all_goals omega

theorem ends_statement (ts : List Lexeme) :
    Ends ts.length (statement resolve ts) fun t => t.IsPlaced ts.length := by
  rw [statement.eq_def]
  split
  · exact ends_block _
  · simp only [List.length_cons]
    refine (ends_expect _ _).bind (by omega) fun _ rest _ _ => ?_
    dsimp only
    refine (ends_expression _).bind (by omega) fun condition rest _ hCondition => ?_
    dsimp only
    refine (ends_expect _ _).bind (by omega) fun _ rest _ _ => ?_
    dsimp only
    refine (ends_statement _).bind (by omega) fun thenBranch rest _ hThen => ?_
    dsimp only
    split
    · refine (ends_statement _).bind (by omega) fun elseBranch rest _ hElse => Ends.done ?_
      have hParts : InOrder _ [condition, thenBranch, elseBranch] rest.length :=
        .cons hCondition (Nat.le_refl _)
          (.cons hThen (by omega) (.cons hElse (by omega) (.nil (Nat.le_refl _))))
      exact isPlaced_around hParts (by omega) (Nat.le_refl _) (by omega)
    · refine Ends.done ?_
      have hParts : InOrder _ [condition, thenBranch] rest.length :=
        .cons hCondition (Nat.le_refl _) (.cons hThen (by omega) (.nil (Nat.le_refl _)))
      exact isPlaced_around hParts (by omega) (Nat.le_refl _) (by omega)
  · exact Ends.done (isPlaced_leaf rfl (by simp only [List.length_cons]; omega))
  · simp only [List.length_cons]
    refine (ends_expression _).bind (by omega) fun value rest _ hValue => ?_
    dsimp only
    refine (ends_expect _ _).bind (by omega) fun _ rest hLess _ => Ends.done ?_
    exact isPlaced_one rfl hValue (by omega) (Nat.le_of_lt hLess) (.inr hLess)
  · simp only [List.length_cons]
    split
    · exact Ends.fail (by simp [expected])
    · refine (ends_expression _).bind (by omega) fun init rest _ hInit => ?_
      dsimp only
      refine (ends_expect _ _).bind (by omega) fun _ rest hLess _ => Ends.done ?_
      exact isPlaced_one rfl hInit (by omega) (Nat.le_of_lt hLess) (.inr hLess)
  · split
    · next hHead _ =>
      split
      · refine (ends_expression _).bind (by omega) fun init rest _ hInit => ?_
        dsimp only
        refine (ends_expect _ _).bind (by omega) fun _ rest hLess _ => Ends.done ?_
        exact isPlaced_one rfl hInit (by omega) (Nat.le_of_lt hLess) (.inr hLess)
      · refine (ends_expect _ _).bind (by omega) fun _ rest hLess _ => Ends.done ?_
        exact isPlaced_leaf rfl (Nat.lt_trans hLess hHead)
    · refine (ends_expression _).bind (Nat.le_refl _) fun expr rest _ hExpr => ?_
      dsimp only
      refine (ends_expect _ _).bind (by omega) fun _ rest hLess _ => Ends.done ?_
      exact isPlaced_one rfl hExpr (Nat.le_refl _) (Nat.le_of_lt hLess) (.inr hLess)
termination_by 32 * ts.length + 15
decreasing_by
  all_goals first
    | omega
    | (subst_vars; simp only [List.length_cons]; omega)

theorem ends_expression (ts : List Lexeme) :
    Ends ts.length (expression resolve ts) fun t => t.IsPlaced ts.length := by
  rw [expression.eq_def]
  split
  · exact ends_lambda ts
  · exact ends_conditional ts
termination_by 32 * ts.length + 13
decreasing_by all_goals omega

theorem ends_lambda (ts : List Lexeme) :
    Ends ts.length (lambda resolve ts) fun t => t.IsPlaced ts.length := by
  rw [lambda.eq_def]
  rcases skipAsync ts with ⟨isAsync, rest, _⟩
  refine (ends_lambdaHead resolve _).bind (by omega) fun params rest _ hParams => ?_
  dsimp only at hParams ⊢
  have hRow : InOrder ts.length params rest.length :=
    InOrder.append (.nil (by omega)) hParams
  refine (ends_expect _ _).bind (by omega) fun _ rest _ _ => ?_
  dsimp only
  split
  · refine (ends_block _).bind (by omega) fun body rest _ hBody => Ends.done ?_
    exact isPlaced_row rfl hRow hBody (by omega) (by omega) (Nat.le_refl _)
  · refine (ends_expression _).bind (by omega) fun body rest _ hBody => Ends.done ?_
    exact isPlaced_row rfl hRow hBody (by omega) (by omega) (Nat.le_refl _)
termination_by 32 * ts.length + 12
decreasing_by all_goals omega

theorem ends_conditional (ts : List Lexeme) :
    Ends ts.length (conditional resolve ts) fun t => t.IsPlaced ts.length := by
  rw [conditional.eq_def]
  refine (ends_operation 0 _).bind (Nat.le_refl _) fun condition rest _ hCondition => ?_
  dsimp only
  split
  · refine (ends_expression _).bind (by omega) fun whenTrue rest _ hTrue => ?_
    dsimp only
    refine (ends_expect _ _).bind (by omega) fun _ rest _ _ => ?_
    dsimp only
    refine (ends_expression _).bind (by omega) fun whenFalse rest _ hFalse => Ends.done ?_
    have hRow : InOrder ts.length [condition, whenTrue] _ :=
      .cons hCondition (Nat.le_refl _) (.cons hTrue (by omega) (.nil (Nat.le_refl _)))
    exact isPlaced_row rfl hRow hFalse (by omega) (by omega) (Nat.le_refl _)
  · exact Ends.done hCondition
termination_by 32 * ts.length + 11
decreasing_by
  all_goals first
    | omega
    | (unfold levels; omega)

theorem ends_operation (level : Nat) (ts : List Lexeme) :
    Ends ts.length (operation resolve level ts) fun t => t.IsPlaced ts.length := by
  rw [operation.eq_def]
  split
  · refine (ends_operation (level + 1) _).bind (Nat.le_refl _) fun left rest _ hLeft => ?_
    dsimp only
    exact (ends_operationTail level _ hLeft).bind (by omega) fun whole rest _ hWhole =>
      Ends.done hWhole
  · exact ends_unary ts
termination_by 32 * ts.length + 4 + (levels - level)
decreasing_by all_goals omega

theorem ends_operationTail (level : Nat) {before : Nat} {left : Term} (ts : List Lexeme)
    (hLeft : left.IsPlaced before ts.length) :
    Ends ts.length (operationTail resolve level before left ts) fun t => t.IsPlaced before := by
  have hBefore := hLeft.lt
  rw [operationTail.eq_def]
  split
  · exact Ends.done hLeft
  · simp only [List.length_cons] at hLeft hBefore ⊢
    split
    · next op _ =>
        refine (ends_operation (level + 1) _).bind (by omega) fun right rest _ hRight => ?_
        dsimp only
        have hRow : InOrder before [left] _ := .cons hLeft (Nat.le_refl _) (.nil (Nat.le_refl _))
        have hWhole : (spanning before (.binary op left right) rest).IsPlaced before rest.length :=
          isPlaced_row rfl hRow hRight (by omega) (by omega) (Nat.le_refl _)
        exact (ends_operationTail level _ hWhole).bind (by omega) fun whole rest _ h => Ends.done h
    · split
      · refine (ends_pattern _).bind (by omega) fun test rest _ _ => ?_
        dsimp only
        have hWhole : (spanning before (.isPattern left test) rest).IsPlaced before rest.length :=
          isPlaced_one rfl hLeft (Nat.le_refl _) (by omega) (by omega)
        exact (ends_operationTail level _ hWhole).bind (by omega) fun whole rest _ h => Ends.done h
      · exact Ends.done hLeft
termination_by 32 * ts.length
decreasing_by
  all_goals first
    | omega
    | (subst_vars; simp only [List.length_cons, levels]; omega)

theorem ends_unary (ts : List Lexeme) :
    Ends ts.length (unary resolve ts) fun t => t.IsPlaced ts.length := by
  rw [unary.eq_def]
  split
  · simp only [List.length_cons]
    refine (ends_unary _).bind (by omega) fun operand rest _ hOperand => Ends.done ?_
    exact isPlaced_one rfl hOperand (by omega) (Nat.le_refl _) (by omega)
  · simp only [List.length_cons]
    refine (ends_unary _).bind (by omega) fun operand rest _ hOperand => Ends.done ?_
    exact isPlaced_one rfl hOperand (by omega) (Nat.le_refl _) (by omega)
  · simp only [List.length_cons]
    refine (ends_unary _).bind (by omega) fun operand rest _ hOperand => Ends.done ?_
    exact isPlaced_one rfl hOperand (by omega) (Nat.le_refl _) (by omega)
  · refine (ends_primary _).bind (Nat.le_refl _) fun head rest _ hHead => ?_
    dsimp only
    exact (ends_chain _ hHead).bind (by omega) fun whole rest _ hWhole => Ends.done hWhole
termination_by 32 * ts.length + 3
decreasing_by
  all_goals first
    | omega
    | (subst_vars; simp only [List.length_cons]; omega)

theorem ends_chain {before : Nat} {head : Term} (ts : List Lexeme)
    (hHead : head.IsPlaced before ts.length) :
    Ends ts.length (chain resolve before head ts) fun t => t.IsPlaced before := by
  have hBefore := hHead.lt
  rw [chain.eq_def]
  split
  · simp only [List.length_cons] at hHead hBefore ⊢
    refine (ends_expectWord _ _).bind (by omega) fun member rest _ _ => ?_
    dsimp only
    have hWhole : (spanning before (.memberAccess head member) rest).IsPlaced before rest.length :=
      isPlaced_one rfl hHead (Nat.le_refl _) (by omega) (by omega)
    exact (ends_chain _ hWhole).bind (by omega) fun whole rest _ h => Ends.done h
  · simp only [List.length_cons] at hHead hBefore ⊢
    refine (ends_arguments _).bind (by omega) fun args rest _ hArgs => ?_
    dsimp only
    have hRow : InOrder before (head :: args.map (·.value)) (rest.length + 1) :=
      .cons hHead (Nat.le_refl _) (InOrder.append (.nil (by omega)) hArgs)
    have hWhole : (spanning before (.invocation head args) rest).IsPlaced before rest.length :=
      isPlaced_around hRow (Nat.le_refl _) (by omega) (by omega)
    exact (ends_chain _ hWhole).bind (by omega) fun whole rest _ h => Ends.done h
  · next binding =>
      simp only [List.length_cons] at hHead hBefore ⊢
      refine (ends_expectWord _ _).bind (by omega) fun member rest _ _ => ?_
      dsimp only
      have hInner : (spanning binding.length (.memberBinding member) rest).IsPlaced binding.length
          rest.length := isPlaced_leaf rfl (by omega)
      refine (ends_chain _ hInner).bind (by omega) fun inner rest _ h => Ends.done ?_
      have hRow : InOrder before [head] _ := .cons hHead (Nat.le_refl _) (.nil (Nat.le_refl _))
      exact isPlaced_row rfl hRow h (by omega) (by omega) (Nat.le_refl _)
  · exact Ends.done hHead
termination_by 32 * ts.length
decreasing_by
  all_goals first
    | omega
    | (subst_vars; simp only [List.length_cons]; omega)

/-- The arguments end before the parenthesis that closes them. -/
theorem ends_arguments (ts : List Lexeme) :
    Ends ts.length (arguments resolve ts) fun args left =>
      InOrder ts.length (args.map (·.value)) (left + 1) := by
  rw [arguments.eq_def]
  split
  · exact Ends.done (.nil (by simp))
  · rcases argumentName _ with ⟨name, rest, _⟩
    refine (ends_argument _).bind (by omega) fun value rest _ hValue => ?_
    dsimp only at hValue ⊢
    split
    · refine (ends_arguments _).bind (by omega) fun args rest _ hArgs => Ends.done ?_
      exact .cons hValue (by omega) (InOrder.append (.nil (by omega)) hArgs)
    · refine (ends_expect _ _).bind (by omega) fun _ rest hLess _ => Ends.done ?_
      exact .cons hValue (by omega) (.nil hLess)
termination_by 32 * ts.length + 15
decreasing_by all_goals omega

theorem ends_argument (ts : List Lexeme) :
    Ends ts.length (argument resolve ts) fun t => t.IsPlaced ts.length := by
  rw [argument.eq_def]
  split
  · exact (ends_outVariable resolve _).bind (by simp) fun target rest _ h => Ends.done h
  · exact ends_expression _
termination_by 32 * ts.length + 14
decreasing_by all_goals omega

theorem ends_primary (ts : List Lexeme) :
    Ends ts.length (primary resolve ts) fun t => t.IsPlaced ts.length := by
  rw [primary.eq_def]
  split
  · exact Ends.fail (Nat.le_refl _)
  · simp only [List.length_cons]
    refine (ends_expression _).bind (by omega) fun inner rest _ hInner => ?_
    dsimp only
    refine (ends_expect _ _).bind (by omega) fun _ rest hLess _ => Ends.done ?_
    exact isPlaced_one rfl hInner (by omega) (Nat.le_of_lt hLess) (.inr hLess)
  · split
    · next hAtom => exact Ends.done (isPlaced_leaf (children_atom hAtom) (by simp))
    · exact Ends.fail (Nat.le_refl _)
termination_by 32 * ts.length + 1
decreasing_by
  all_goals first
    | omega
    | (subst_vars; simp only [List.length_cons]; omega)
end

/-! ## Members -/

theorem ends_member (ts : List Lexeme) :
    Ends ts.length (member resolve ts) fun t => t.IsPlaced ts.length := by
  unfold member
  rcases skipModifiers ts with ⟨_, rest, _⟩
  dsimp only
  rcases skipAsync rest with ⟨isAsync, rest, _⟩
  dsimp only
  rcases skipModifiers rest with ⟨_, rest, _⟩
  dsimp only
  refine (ends_memberType resolve _).bind (by omega) fun type rest _ _ => ?_
  dsimp only
  refine (ends_expectWord _ _).bind (by omega) fun name rest _ _ => ?_
  dsimp only
  split
  · refine (ends_parameterList resolve _).bind (by omega) fun params rest _ hParams => ?_
    dsimp only
    refine (ends_block resolve _).bind (by omega) fun body rest _ hBody => Ends.done ?_
    have hRow : InOrder ts.length params _ := InOrder.append (.nil (by omega)) hParams
    exact isPlaced_row rfl hRow hBody (Nat.le_refl _) (by omega) (Nat.le_refl _)
  · split
    · exact Ends.fail (by dsimp only; omega)
    · split
      · refine (ends_expression resolve _).bind (by omega) fun init rest _ hInit => ?_
        dsimp only
        refine (ends_expect _ _).bind (by omega) fun _ rest hLess _ => Ends.done ?_
        exact isPlaced_one rfl hInit (by omega) (Nat.le_of_lt hLess) (.inr hLess)
      · refine (ends_expect _ _).bind (by omega) fun _ rest hLess _ => Ends.done ?_
        exact isPlaced_leaf rfl (by dsimp only; omega)

/-- The members of a unit follow each other to the end. -/
theorem inOrder_members (ts : List Lexeme) {all : List Term} (h : members resolve ts = .ok all) :
    InOrder ts.length all 0 := by
  rw [members.eq_def] at h
  split at h
  · obtain rfl := Except.ok.inj h
    exact .nil (Nat.le_refl _)
  · obtain ⟨⟨first, rest, _⟩, hFirst, h⟩ := exists_of_bind_eq_ok h
    obtain ⟨others, hOthers, h⟩ := exists_of_bind_eq_ok h
    obtain rfl := Except.ok.inj h
    have hPlaced := (ends_member resolve _).ok _ hFirst
    exact .cons hPlaced (Nat.le_refl _) (inOrder_members rest hOthers)
termination_by ts.length
decreasing_by omega

/-- **A grammatical error shows within the text,** which has a lexeme then. -/
theorem left_le_of_members_error (ts : List Lexeme) {e : ParseError}
    (h : members resolve ts = .error e) : e.left ≤ ts.length ∧ ts ≠ [] := by
  rw [members.eq_def] at h
  split at h
  · simp [pure, Except.pure] at h
  · next hNonempty =>
    refine ⟨?_, hNonempty⟩
    cases hFirst : member resolve ts with
    | error e' =>
        obtain rfl : e' = e := by simpa [hFirst, Bind.bind, Except.bind] using h
        exact (ends_member resolve ts).error e' hFirst
    | ok r =>
        cases hOthers : members resolve r.rest with
        | error e' =>
            obtain rfl : e' = e := by simpa [hFirst, hOthers, Bind.bind, Except.bind] using h
            have hFits := r.fits
            have := (left_le_of_members_error r.rest hOthers).1
            omega
        | ok others => simp [hFirst, hOthers, Bind.bind, Except.bind, pure, Except.pure] at h
termination_by ts.length
decreasing_by exact r.fits

end Parser

end StateGuard
