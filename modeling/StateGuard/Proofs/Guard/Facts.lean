import StateGuard.Proofs.Guard.Recognition

/-!
# Facts of a condition

A fact says what its branch forces.  Whether that is a state or its opposite is settled in several
places (the negations around a test, the side and the value of a literal, the operator between them,
the branch, the state that a truth value implies), and here the whole is held against what conditions
can evaluate to: no fact claims more than its branch forces, and a condition over one discriminant
yields exactly what each branch forces.

Every other form of condition has its facts from its parts, or has none.

## Main results

* `Single.allows_iff`: a condition over one discriminant forces one state in each branch.
* `extract_of_single`, `extract_of_tries`: the facts of a test, and of a call that tries.
* `Joined.factsIn_eq`: a tree of one operator collects the facts of its operands.
* `extract_of_not`, `extract_of_comparison`, `extract_eq_nil_of_no_form`: what yields nothing.
* `facts_are_sound_and_exact`: the whole.
-/

namespace StateGuard

namespace Branch

/-- The branch of the other outcome. -/
def other : Branch → Branch
  | .whenTrue => .whenFalse
  | .whenFalse => .whenTrue

/-- The operator that has the outcome of a branch only when both its sides have it. -/
def joint : Branch → BinaryOp
  | .whenTrue => .and
  | .whenFalse => .or

end Branch

namespace Shape

variable {ι : Type} {shape : Shape ι}

theorem facts_of_single {s : ι} {P : State} {t : Bool} (h : shape.single? = some (s, P, t)) :
    shape.facts = split s P t := by
  cases shape <;> simp_all [single?, facts]

theorem IsSimple.facts_eq_nil (h : shape.IsSimple) (hNone : shape.single? = none) :
    shape.facts = [] := by
  rcases h with rfl | ⟨single, hSingle⟩
  · rfl
  · simp [hNone] at hSingle

/-- A negation of anything but a single discriminant proves nothing. -/
theorem facts_negate_of_not_single (h : shape.single? = none) : shape.negate.facts = [] :=
  (isSimple_negate shape).facts_eq_nil (by simp [single?_negate, h])

end Shape

namespace Context

variable {ctx : Context} {c s : ctx.Id} {P : State} {t b : Bool} {branch : Branch}

/-! ## Facts -/

/-- The facts of a condition, or with a hint those about the place that the hint reads. -/
def extract (c : ctx.Id) : Option ctx.Id → List (Fact ctx.Id)
  | none => ctx.answer (ctx.facts c)
  | some hint => ctx.answer (ctx.factsAbout c hint)

/-- The facts of a condition in one branch. -/
def factsIn (c : ctx.Id) (branch : Branch) : List (Fact ctx.Id) :=
  (extract c none).filter (·.branch = branch)

theorem branch_of_mem_factsIn {fact : Fact ctx.Id} (h : fact ∈ factsIn c branch) :
    fact.branch = branch :=
  of_decide_eq_true (List.mem_filter.1 h).2

theorem extract_none : extract c none = (ctx.answer (ctx.shape c)).facts := by
  simp [extract, facts]

/-- **A hint leaves exactly the facts about its place,** in their order. -/
theorem extract_some (hint : ctx.Id) :
    extract c (some hint) = (extract c none).filter fun fact => ctx.sameLocation fact.subject hint := by
  simp [extract, factsAbout]

theorem extract_sublist (hint : Option ctx.Id) : (extract c hint).Sublist (extract c none) := by
  cases hint with
  | none => exact .refl _
  | some hint =>
      rw [extract_some]
      exact List.filter_sublist

/-- A fact that gives its subject a state is established by the outcome of its branch. -/
theorem establishes_of_mem_extract {hint : Option ctx.Id} {fact : Fact ctx.Id}
    (h : fact ∈ extract c hint) (hState : fact.impliedState? = some P) :
    Establishes c fact.branch.outcome fact.subject P := by
  have hFact : fact ∈ (ctx.answer (ctx.shape c)).facts := extract_none ▸ (extract_sublist hint).subset h
  exact proves_shape_iff.1 ⟨fact, hFact, rfl, rfl, hState⟩

/-! ## Tests of one discriminant -/

/-- **A condition over one discriminant forces one state in each branch:** the outcome is possible in
that state and in no other. -/
theorem Single.allows_iff (h : Single c s P t) {σ : ctx.Assignment} :
    σ.allows c b = true ↔ σ.state s = if b = t then P else P.flip := by
  rw [h.allows_eq]
  cases b <;> cases t <;> cases P <;> cases σ.state s <;> decide

theorem extract_of_single (h : Single c s P t) : extract c none = Shape.split s P t := by
  rw [extract_none, Shape.facts_of_single (single_shape_iff.2 h)]

theorem factsIn_of_single (h : Single c s P t) :
    factsIn c branch = [⟨branch, s, .discriminant P, branch.outcome == t⟩] := by
  rw [factsIn, extract_of_single h]
  cases branch <;> cases t <;> simp [Shape.split, Branch.outcome]

theorem impliedState?_of_single (s : ctx.Id) (P : State) (t : Bool) (branch : Branch) :
    (⟨branch, s, .discriminant P, branch.outcome == t⟩ : Fact ctx.Id).impliedState? =
      some (if branch.outcome = t then P else P.flip) := by
  cases branch <;> cases t <;> rfl

/-! ## Calls that try -/

theorem extract_of_tries (h : Tries c s P) :
    extract c none = [⟨.whenTrue, s, .trySucceeded P, true⟩] := by
  obtain ⟨out, hShape⟩ := answer_shape_of_tries h
  rw [extract_none, hShape, Shape.facts]

/-! ## Trees of one operator -/

/-- The operands of a tree of one operator in source order, with parentheses anywhere. -/
inductive Joined (op : BinaryOp) : ctx.Id → List ctx.Id → Prop
  | operand (c : ctx.Id) : Joined op c [c]
  | parens {c inner operands} : ctx.tree.node c = .parenthesized inner → Joined op inner operands →
      Joined op c operands
  | both {c left right before after} : ctx.tree.node c = .binary op left right →
      Joined op left before → Joined op right after → Joined op c (before ++ after)

theorem factsIn_parens {inner : ctx.Id} (h : ctx.tree.node c = .parenthesized inner) :
    factsIn c branch = factsIn inner branch := by
  rw [factsIn, factsIn, extract_none, extract_none, shape_parens h]

/-- The facts of a joint operator are those that both sides have in its branch. -/
theorem extract_of_joint {left right : ctx.Id}
    (h : ctx.tree.node (ctx.tree.stripParens c) = .binary branch.joint left right) :
    extract c none = factsIn left branch ++ factsIn right branch := by
  rw [factsIn, factsIn, ← List.filter_append, extract_none, extract_none, extract_none]
  cases branch with
  | whenTrue =>
      rw [shape_and h]
      exact Shape.facts_compound fun hLeft hRight => by simp [Shape.facts, hLeft, hRight]
  | whenFalse =>
      rw [shape_or h]
      exact Shape.facts_compound fun hLeft hRight => by simp [Shape.facts, hLeft, hRight]

theorem factsIn_of_joint {left right : ctx.Id}
    (h : ctx.tree.node (ctx.tree.stripParens c) = .binary branch.joint left right) :
    factsIn c branch = factsIn left branch ++ factsIn right branch := by
  rw [factsIn, extract_of_joint h]
  simp [factsIn]

/-- In its other branch a joint operator proves nothing: either side may have failed it. -/
theorem factsIn_other_of_joint {left right : ctx.Id}
    (h : ctx.tree.node (ctx.tree.stripParens c) = .binary branch.joint left right) :
    factsIn c branch.other = [] := by
  rw [factsIn, extract_of_joint h, List.filter_eq_nil_iff]
  intro fact hFact
  have hBranch : fact.branch = branch := by
    rcases List.mem_append.1 hFact with hSide | hSide <;> exact branch_of_mem_factsIn hSide
  rw [hBranch]
  cases branch <;> decide

/-- **A tree of one operator collects the facts of its operands.** -/
theorem Joined.factsIn_eq {operands : List ctx.Id} (h : Joined branch.joint c operands) :
    factsIn c branch = operands.flatMap (factsIn · branch) := by
  induction h with
  | operand c => simp
  | parens hNode _ ih => rw [factsIn_parens hNode, ih]
  | both hNode _ _ ihBefore ihAfter =>
      rw [factsIn_of_joint (by rwa [Arena.stripParens, hNode]), ihBefore, ihAfter,
        List.flatMap_append]

/-! ## Conditions that prove nothing -/

theorem not_single_of_joint {left right : ctx.Id}
    (h : ctx.tree.node (ctx.tree.stripParens c) = .binary branch.joint left right) :
    ¬ Single c s P t := by
  rw [← single_shape_iff]
  cases branch with
  | whenTrue =>
      rw [shape_and h, Shape.single?_compound rfl]
      simp
  | whenFalse =>
      rw [shape_or h, Shape.single?_compound rfl]
      simp

theorem not_single_of_tries {subject : ctx.Id} {state : State} (h : Tries c subject state) :
    ¬ Single c s P t := by
  obtain ⟨out, hShape⟩ := answer_shape_of_tries h
  simp [← single_shape_iff, hShape, Shape.single?]

/-- Only a negation of a single discriminant proves anything. -/
theorem extract_of_not {operand : ctx.Id}
    (h : ctx.tree.node (ctx.tree.stripParens c) = .unary .not operand)
    (hNone : ∀ s P t, ¬ Single operand s P t) : extract c none = [] := by
  rw [extract_none, shape_not h]
  apply Shape.facts_negate_of_not_single
  rw [Option.eq_none_iff_forall_ne_some]
  rintro ⟨s, P, t⟩ hSingle
  exact hNone s P t (single_shape_iff.1 hSingle)

/-- A comparison without a literal proves nothing. -/
theorem extract_of_comparison {op : BinaryOp} {left right : ctx.Id} (hOp : op = .eq ∨ op = .notEq)
    (h : ctx.tree.node (ctx.tree.stripParens c) = .binary op left right)
    (hLeft : ctx.boolLiteral? left = none) (hRight : ctx.boolLiteral? right = none) :
    extract c none = [] := by
  rw [extract_none]
  rcases hOp with rfl | rfl
  · rw [shape_eq h, comparison, hLeft, hRight]
    rfl
  · rw [shape_notEq h, comparison, hLeft, hRight]
    rfl

/-- A condition is simple, a call that tries, or joins two conditions. -/
theorem isSimple_shape_or (c : ctx.Id) :
    (ctx.answer (ctx.shape c)).IsSimple ∨ (∃ s P, Tries c s P) ∨
      ∃ branch left right,
        ctx.tree.node (ctx.tree.stripParens c) = .binary (Branch.joint branch) left right := by
  induction c using shape.induct with
  | case1 c operand hNode _ =>
      rw [shape_not hNode]
      exact .inl (Shape.isSimple_negate _)
  | case2 c left right hNode _ _ => exact .inr (.inr ⟨.whenTrue, left, right, hNode⟩)
  | case3 c left right hNode _ _ => exact .inr (.inr ⟨.whenFalse, left, right, hNode⟩)
  | case4 c left right hNode =>
      rw [shape_eq hNode]
      exact .inl (isSimple_comparison ..)
  | case5 c left right hNode =>
      rw [shape_notEq hNode]
      exact .inl (isSimple_comparison ..)
  | case6 c operand value hNode =>
      rw [shape_test hNode]
      exact .inl (isSimple_literalTest ..)
  | case7 c callee args hNode =>
      rcases answer_tryCall (c := ctx.tree.stripParens c) with
        hShape | ⟨call, state, out, hCall, hRole, _⟩
      · exact .inl (.inl (by rw [shape_call hNode, hShape]))
      · exact .inr (.inl ⟨_, _, Tries.of_stripParens (.call hCall hRole)⟩)
  | case8 c hNot hAnd hOr hEq hNotEq hTest hCall =>
      rcases answer_shape_other hNot hAnd hOr hEq hNotEq hTest hCall with
        hShape | ⟨subject, state, _, hShape⟩
      · exact .inl (.inl hShape)
      · exact .inl (.inr ⟨(subject, state, true), by rw [hShape, Shape.single?]⟩)

/-- **Every other condition proves nothing.** -/
theorem extract_eq_nil_of_no_form (hSingle : ∀ s P t, ¬ Single c s P t)
    (hTries : ∀ s P, ¬ Tries c s P)
    (hJoint : ∀ branch left right,
      ctx.tree.node (ctx.tree.stripParens c) ≠ .binary (Branch.joint branch) left right) :
    extract c none = [] := by
  rcases isSimple_shape_or c with hSimple | ⟨s, P, hTry⟩ | ⟨branch, left, right, hNode⟩
  · rw [extract_none]
    apply hSimple.facts_eq_nil
    rw [Option.eq_none_iff_forall_ne_some]
    rintro ⟨s, P, t⟩ hShape
    exact hSingle s P t (single_shape_iff.1 hShape)
  · exact absurd hTry (hTries s P)
  · exact absurd hNode (hJoint branch left right)

/-! ## What the facts are worth -/

/-- **Facts are sound and exact.**  A fact that gives its subject a state gives it the one that the
subject has whenever the condition can have the outcome of the branch.  With a hint exactly the facts
about its place are left.  A condition over one discriminant yields one fact in each branch, for the
state that the branch forces; a call that tries yields one fact; a tree of `&&` yields the facts of
its operands where it holds and none where it fails, and a tree of `||` the other way round.  A
comparison without a literal, a negated compound, a negated call that tries and every other
condition yield none. -/
theorem facts_are_sound_and_exact (c : ctx.Id) :
    (∀ hint, ∀ fact ∈ extract c hint, ∀ P, fact.impliedState? = some P →
      ∀ σ : ctx.Assignment, σ.allows c fact.branch.outcome = true → σ.state fact.subject = P) ∧
    (∀ hint, extract c (some hint) =
      (extract c none).filter fun fact => ctx.sameLocation fact.subject hint) ∧
    (∀ s P t, Single c s P t → ∀ branch, ∃ fact Q, factsIn c branch = [fact] ∧
      fact.subject = s ∧ fact.impliedState? = some Q ∧
      ∀ σ : ctx.Assignment, σ.allows c branch.outcome = true ↔ σ.state s = Q) ∧
    (∀ branch operands, Joined (Branch.joint branch) c operands →
      factsIn c branch = operands.flatMap (factsIn · branch)) ∧
    (∀ branch left right,
      ctx.tree.node (ctx.tree.stripParens c) = .binary (Branch.joint branch) left right →
      factsIn c branch.other = []) ∧
    (∀ s P, Tries c s P → extract c none = [⟨.whenTrue, s, .trySucceeded P, true⟩]) ∧
    (∀ op left right, op = .eq ∨ op = .notEq →
      ctx.tree.node (ctx.tree.stripParens c) = .binary op left right →
      ctx.boolLiteral? left = none → ctx.boolLiteral? right = none → extract c none = []) ∧
    (∀ operand, ctx.tree.node (ctx.tree.stripParens c) = .unary .not operand →
      (∃ branch left right, ctx.tree.node (ctx.tree.stripParens operand) =
        .binary (Branch.joint branch) left right) ∨ (∃ s P, Tries operand s P) →
      extract c none = []) ∧
    ((∀ s P t, ¬ Single c s P t) → (∀ s P, ¬ Tries c s P) →
      (∀ branch left right,
        ctx.tree.node (ctx.tree.stripParens c) ≠ .binary (Branch.joint branch) left right) →
      extract c none = []) := by
  refine ⟨?_, extract_some, ?_, fun _ _ => Joined.factsIn_eq, fun _ _ _ => factsIn_other_of_joint,
    fun _ _ => extract_of_tries, fun _ _ _ => extract_of_comparison, ?_, extract_eq_nil_of_no_form⟩
  · intro hint fact hFact P hState σ hAllows
    exact (establishes_of_mem_extract hFact hState).sound hAllows
  · intro s P t hSingle branch
    exact ⟨_, _, factsIn_of_single hSingle, rfl, impliedState?_of_single s P t branch,
      fun σ => hSingle.allows_iff⟩
  · rintro operand hNot (⟨branch, left, right, hJoint⟩ | ⟨s, P, hTries⟩)
    · exact extract_of_not hNot fun _ _ _ => not_single_of_joint hJoint
    · exact extract_of_not hNot fun _ _ _ => not_single_of_tries hTries

/-- The tree of `!(r.IsSuccess == false)`. -/
def negatedComparison : Tree where
  size := 6
  node i := #v[.identifier "r", .memberAccess 0 "IsSuccess", .literal (.bool false),
    .binary .eq 1 2, .parenthesized 3, .unary .not 4][i]
  root := 5
  parent i := #v[some 1, some 3, some 3, some 4, some 5, none][i]
  depth i := #v[4, 3, 3, 2, 1, 0][i]
  parent_eq_some_iff := by decide
  children_nodup := by decide
  parent_root := by decide
  depth_of_parent := by decide
  depth_le_size := by decide
  file := "negated.cs"
  span _ := ⟨.origin, .origin⟩

/-- The condition `!(r.IsSuccess == false)` about a result. -/
def negatedTest : Context := .ofUnit
  ⟨negatedComparison, (Oracle.empty 6).setType 0
    (.generic "CSharpFunctionalExtensions.Result" [.named "int"])⟩ {}

theorem single_negatedTest : @Single negatedTest (5 : Fin 6) (0 : Fin 6) .ok true := by
  have hRead : @Reads negatedTest (1 : Fin 6) (0 : Fin 6) .ok := .member rfl (by decide +kernel)
  have hComparison : @Single negatedTest (3 : Fin 6) (0 : Fin 6) .ok false :=
    .eqRight rfl hRead (by decide +kernel)
  exact .not rfl (.parens rfl hComparison)

/-- Where the negated comparison fails, its one fact is that the result has failed. -/
theorem facts_of_negated_comparison :
    ∃ fact, @factsIn negatedTest (5 : Fin 6) .whenFalse = [fact] ∧
      fact.impliedState? = some .notOk ∧
      ∀ σ : negatedTest.Assignment, σ.allows (5 : Fin 6) false = true ↔
        σ.state (0 : Fin 6) = .notOk := by
  obtain ⟨fact, Q, hOne, -, hState, hForced⟩ :=
    (@facts_are_sound_and_exact negatedTest (5 : Fin 6)).2.2.1 _ _ _ single_negatedTest .whenFalse
  rw [factsIn_of_single single_negatedTest, List.singleton_inj] at hOne
  obtain rfl : .notOk = Q := by
    rw [← hOne] at hState
    exact Option.some.inj hState
  exact ⟨fact, by rw [factsIn_of_single single_negatedTest, hOne], hState, hForced⟩

end Context

end StateGuard
