import StateGuard.Proofs.Guard.Evaluation
import StateGuard.Proofs.Syntax.Ancestry

/-!
# Recognized facts

The facts that recognition takes from a condition are exactly what the calculus of outcomes
establishes.  Recognition looks through parentheses at every step, while the calculus has a rule for
them; otherwise the two go through the same forms.

## Main results

* `answer_discriminant_iff`: recognized discriminants are the reads of a discriminant.
* `single_shape_iff`: the shapes that a negation can turn round are the conditions over one
  discriminant.
* `proves_shape_iff`: a shape proves what its condition establishes, in both branches.
-/

namespace StateGuard

/-- The outcome of a condition in a branch. -/
def Branch.outcome : Branch → Bool
  | .whenTrue => true
  | .whenFalse => false

namespace Shape

variable {ι : Type}

/-- The subject and state of a shape about one discriminant, and the value that the discriminant has
when the condition holds. -/
def single? : Shape ι → Option (ι × State × Bool)
  | .discriminant subject state => some (subject, state, true)
  | .negated subject state => some (subject, state, false)
  | .literal subject state expected => some (subject, state, expected)
  | _ => none

/-- In the branch of an outcome, one of the facts gives the subject a state. -/
def Gives (facts : List (Fact ι)) (b : Bool) (subject : ι) (state : State) : Prop :=
  ∃ fact ∈ facts, fact.branch.outcome = b ∧ fact.subject = subject ∧
    fact.impliedState? = some state

/-- In the branch of an outcome, a fact of the shape gives the subject a state. -/
def Proves (shape : Shape ι) (b : Bool) (subject : ι) (state : State) : Prop :=
  Gives shape.facts b subject state

theorem gives_append_iff {facts others : List (Fact ι)} {b : Bool} {s : ι} {P : State} :
    Gives (facts ++ others) b s P ↔ Gives facts b s P ∨ Gives others b s P := by
  simp only [Gives, List.mem_append, or_and_right, exists_or]

theorem gives_filter_iff {facts : List (Fact ι)} {branch : Branch} {b : Bool} {s : ι} {P : State} :
    Gives (facts.filter (·.branch = branch)) b s P ↔ b = branch.outcome ∧ Gives facts b s P := by
  simp only [Gives, List.mem_filter, decide_eq_true_eq]
  constructor
  · rintro ⟨fact, ⟨hMem, hBranch⟩, hOutcome, hRest⟩
    exact ⟨by rw [← hBranch, hOutcome], fact, hMem, hOutcome, hRest⟩
  · rintro ⟨rfl, fact, hMem, hOutcome, hRest⟩
    refine ⟨fact, ⟨hMem, ?_⟩, hOutcome, hRest⟩
    cases branch <;> cases hBranch : fact.branch <;> simp_all [Branch.outcome]

theorem single?_negate (shape : Shape ι) :
    shape.negate.single? = shape.single?.map fun (subject, state, t) => (subject, state, !t) := by
  cases shape <;> rfl

/-- A shape about one discriminant gives its subject one state in each branch. -/
theorem proves_iff_of_single {shape : Shape ι} {s : ι} {P : State} {t : Bool}
    (h : shape.single? = some (s, P, t)) {b : Bool} {s' : ι} {P' : State} :
    shape.Proves b s' P' ↔ s' = s ∧ P' = if b = t then P else P.flip := by
  have hFacts : shape.facts = split s P t := by
    cases shape <;> simp_all [single?, facts]
  simp only [Proves, Gives, hFacts, split, List.mem_cons, List.not_mem_nil, or_false,
    exists_eq_or_imp, exists_eq_left, Branch.outcome, Fact.impliedState?]
  cases b <;> cases t <;> simp [Predicate.impliedState?, eq_comm]

theorem proves_tryAccessor_iff {s s' : ι} {P P' : State} {out : Option ι} {b : Bool} :
    (Shape.tryAccessor s P out).Proves b s' P' ↔ b = true ∧ s' = s ∧ P' = P := by
  simp only [Proves, Gives, facts, List.mem_singleton, exists_eq_left, Branch.outcome,
    Fact.impliedState?, Predicate.impliedState?, Option.some.injEq]
  constructor
  · rintro ⟨rfl, rfl, rfl⟩
    exact ⟨rfl, rfl, rfl⟩
  · rintro ⟨rfl, rfl, rfl⟩
    exact ⟨rfl, rfl, rfl⟩

theorem not_proves_unrecognized {s : ι} {P : State} {b : Bool} :
    ¬ (Shape.unrecognized : Shape ι).Proves b s P := by
  simp [Proves, Gives, facts]

/-- A shape is about one discriminant, or proves nothing. -/
def IsSimple (shape : Shape ι) : Prop :=
  shape = .unrecognized ∨ ∃ single, shape.single? = some single

/-- Only a shape about one discriminant proves anything when it is negated. -/
theorem isSimple_negate (shape : Shape ι) : shape.negate.IsSimple := by
  cases shape <;> simp [IsSimple, single?, negate]

theorem facts_of_not_isRecognized {shape : Shape ι} (h : shape.isRecognized = false) :
    shape.facts = [] := by
  cases shape <;> simp_all [isRecognized, facts]

/-- Leaving out a compound of nothing leaves out no fact. -/
theorem facts_compound {make : Shape ι → Shape ι → Shape ι} {left right : Shape ι}
    (hMake : left.facts = [] → right.facts = [] → (make left right).facts = []) :
    (compound make left right).facts = (make left right).facts := by
  unfold compound
  split
  · rfl
  · next h =>
      simp only [Bool.or_eq_true, not_or, Bool.not_eq_true] at h
      rw [hMake (facts_of_not_isRecognized h.1) (facts_of_not_isRecognized h.2)]
      rfl

theorem single?_compound {make : Shape ι → Shape ι → Shape ι} {left right : Shape ι}
    (hMake : (make left right).single? = none) : (compound make left right).single? = none := by
  unfold compound
  split
  · exact hMake
  · rfl

theorem proves_conjunction_iff {left right : Shape ι} {b : Bool} {s : ι} {P : State} :
    (compound .conjunction left right).Proves b s P ↔
      b = true ∧ (left.Proves b s P ∨ right.Proves b s P) := by
  have hFacts : (compound .conjunction left right).facts =
      (left.facts ++ right.facts).filter (·.branch = .whenTrue) :=
    facts_compound fun hLeft hRight => by simp [facts, hLeft, hRight]
  rw [Proves, hFacts, gives_filter_iff, gives_append_iff]
  rfl

theorem proves_disjunction_iff {left right : Shape ι} {b : Bool} {s : ι} {P : State} :
    (compound .disjunction left right).Proves b s P ↔
      b = false ∧ (left.Proves b s P ∨ right.Proves b s P) := by
  have hFacts : (compound .disjunction left right).facts =
      (left.facts ++ right.facts).filter (·.branch = .whenFalse) :=
    facts_compound fun hLeft hRight => by simp [facts, hLeft, hRight]
  rw [Proves, hFacts, gives_filter_iff, gives_append_iff]
  rfl

end Shape

namespace Context

variable {ctx : Context} {c s : ctx.Id} {P : State} {t b : Bool}

/-! ## Parentheses -/

theorem stripParens_parens {inner : ctx.Id} (h : ctx.tree.node c = .parenthesized inner) :
    ctx.tree.stripParens c = ctx.tree.stripParens inner := by
  rw [Arena.stripParens, h]

theorem shape_parens {inner : ctx.Id} (h : ctx.tree.node c = .parenthesized inner) :
    ctx.shape c = ctx.shape inner := by
  rw [shape, shape, stripParens_parens h]

theorem discriminant_parens {inner : ctx.Id} (h : ctx.tree.node c = .parenthesized inner) :
    ctx.discriminant? c = ctx.discriminant? inner := by
  simp only [discriminant?, memberRead?, stripParens_parens h]

/-! ## Discriminants -/

theorem answer_discriminant {member : String} (h : ctx.memberRead? c = some (s, member)) :
    ctx.answer (ctx.discriminant? c) =
      match ctx.roleOf? s member with
      | some (.discriminant state) => some (s, state)
      | _ => none := by
  unfold discriminant? roleOf?
  rw [h]
  simp only [Inquiry.answer_bind]
  cases hFamily : ctx.answer (ctx.wrapperFamily? s) with
  | none => simp [hFamily]
  | some family =>
      simp only [hFamily, Option.bind_some]
      split <;> simp_all

/-- Parentheses around a read do not matter. -/
theorem Reads.of_stripParens (h : Reads (ctx.tree.stripParens c) s P) : Reads c s P := by
  fun_induction Arena.stripParens with
  | case1 c inner hNode ih => exact .parens hNode (ih h)
  | case2 c hNode => exact h

/-- **Recognized discriminants are the reads of a discriminant.** -/
theorem answer_discriminant_iff :
    ctx.answer (ctx.discriminant? c) = some (s, P) ↔ Reads c s P := by
  constructor
  · intro h
    apply Reads.of_stripParens
    cases hRead : ctx.memberRead? c with
    | none => simp [discriminant?, hRead] at h
    | some read =>
        obtain ⟨subject, member⟩ := read
        rw [answer_discriminant hRead] at h
        split at h
        · next state hRole =>
            obtain ⟨rfl, rfl⟩ := Prod.mk.inj (Option.some.inj h)
            unfold memberRead? at hRead
            split at hRead
            · next hNode =>
                obtain ⟨rfl, rfl⟩ := Prod.mk.inj (Option.some.inj hRead)
                exact .member hNode hRole
            · next hNode =>
                split at hRead
                · next hRest =>
                    obtain ⟨rfl, rfl⟩ := Prod.mk.inj (Option.some.inj hRead)
                    exact .access hNode hRest hRole
                · simp at hRead
            · simp at hRead
        · simp at h
  · intro h
    induction h with
    | parens hNode _ ih => rw [discriminant_parens hNode, ih]
    | @member c s member P hNode hRole =>
        have hRead : ctx.memberRead? c = some (s, member) := by
          simp [memberRead?, Arena.stripParens, hNode]
        rw [answer_discriminant hRead, hRole]
    | @access c s rest member P hNode hRest hRole =>
        have hRead : ctx.memberRead? c = some (s, member) := by
          simp [memberRead?, Arena.stripParens, hNode, hRest]
        rw [answer_discriminant hRead, hRole]

/-! ## Shapes -/

theorem single_literalTest_iff {operand : ctx.Id} {expected : Bool} :
    (ctx.answer (ctx.literalTest operand expected)).single? = some (s, P, t) ↔
      Reads operand s P ∧ t = expected := by
  rw [← answer_discriminant_iff]
  simp only [literalTest, Inquiry.answer_bind]
  cases hRead : ctx.answer (ctx.discriminant? operand) with
  | none => simp [hRead, Shape.single?]
  | some read =>
      obtain ⟨subject, state⟩ := read
      simp only [hRead, Inquiry.answer_pure, Shape.single?, Option.some.injEq, Prod.mk.injEq]
      constructor
      · rintro ⟨rfl, rfl, rfl⟩
        exact ⟨⟨rfl, rfl⟩, rfl⟩
      · rintro ⟨⟨rfl, rfl⟩, rfl⟩
        exact ⟨rfl, rfl, rfl⟩

theorem single_comparison_iff {isEquality : Bool} {left right : ctx.Id} :
    (ctx.answer (ctx.comparison isEquality left right)).single? = some (s, P, t) ↔
      (Reads left s P ∧ ctx.boolLiteral? right = some (t == isEquality)) ∨
      (Reads right s P ∧ ctx.boolLiteral? left = some (t == isEquality)) := by
  unfold comparison
  have hSolve : ∀ value : Bool, (t = (value == isEquality)) ↔ (value = (t == isEquality)) := by
    revert t isEquality
    decide
  cases hLeft : ctx.boolLiteral? left with
  | none =>
      cases hRight : ctx.boolLiteral? right with
      | none => simp [Shape.single?]
      | some value =>
          simp only [single_literalTest_iff, hSolve]
          simp
  | some value =>
      have hNot : ¬ Reads left s P := by
        intro hRead
        simp [hRead.boolLiteral?_eq_none] at hLeft
      cases hRight : ctx.boolLiteral? right with
      | none =>
          simp only [single_literalTest_iff, hSolve]
          simp
      | some other =>
          have hNot' : ¬ Reads right s P := by
            intro hRead
            simp [hRead.boolLiteral?_eq_none] at hRight
          simp [Shape.single?, hNot, hNot']

/-- A read of a discriminant stands at a member access or a conditional access, once parentheses are
taken off. -/
theorem Reads.node_stripParens (h : Reads c s P) :
    (∃ member, ctx.tree.node (ctx.tree.stripParens c) = .memberAccess s member) ∨
      ∃ rest, ctx.tree.node (ctx.tree.stripParens c) = .conditionalAccess s rest := by
  induction h with
  | parens hNode _ ih =>
      rw [stripParens_parens hNode]
      exact ih
  | member hNode _ => exact .inl ⟨_, by rw [Arena.stripParens, hNode]; exact hNode⟩
  | access hNode _ _ => exact .inr ⟨_, by rw [Arena.stripParens, hNode]; exact hNode⟩

theorem Reads.stripParens (h : Reads c s P) : Reads (ctx.tree.stripParens c) s P := by
  induction h with
  | parens hNode _ ih =>
      rw [stripParens_parens hNode]
      exact ih
  | member hNode hRole =>
      rw [Arena.stripParens, hNode]
      exact .member hNode hRole
  | access hNode hRest hRole =>
      rw [Arena.stripParens, hNode]
      exact .access hNode hRest hRole

theorem Single.of_stripParens (h : Single (ctx.tree.stripParens c) s P t) : Single c s P t := by
  fun_induction Arena.stripParens with
  | case1 c inner hNode ih => exact .parens hNode (ih h)
  | case2 c hNode => exact h

theorem Tries.of_stripParens (h : Tries (ctx.tree.stripParens c) s P) : Tries c s P := by
  fun_induction Arena.stripParens with
  | case1 c inner hNode ih => exact .parens hNode (ih h)
  | case2 c hNode => exact h

theorem Establishes.of_stripParens (h : Establishes (ctx.tree.stripParens c) b s P) :
    Establishes c b s P := by
  fun_induction Arena.stripParens with
  | case1 c inner hNode ih => exact .parens hNode (ih h)
  | case2 c hNode => exact h

/-! One equation for each form of condition, the parentheses taken off. -/

section Equations

variable {operand left right : ctx.Id}

theorem shape_not (h : ctx.tree.node (ctx.tree.stripParens c) = .unary .not operand) :
    ctx.answer (ctx.shape c) = (ctx.answer (ctx.shape operand)).negate := by
  rw [shape, h]
  exact Inquiry.answer_bind ..

theorem shape_and (h : ctx.tree.node (ctx.tree.stripParens c) = .binary .and left right) :
    ctx.answer (ctx.shape c) =
      .compound .conjunction (ctx.answer (ctx.shape left)) (ctx.answer (ctx.shape right)) := by
  rw [shape, h]
  simp

theorem shape_or (h : ctx.tree.node (ctx.tree.stripParens c) = .binary .or left right) :
    ctx.answer (ctx.shape c) =
      .compound .disjunction (ctx.answer (ctx.shape left)) (ctx.answer (ctx.shape right)) := by
  rw [shape, h]
  simp

theorem shape_eq (h : ctx.tree.node (ctx.tree.stripParens c) = .binary .eq left right) :
    ctx.shape c = ctx.comparison true left right := by
  rw [shape, h]

theorem shape_notEq (h : ctx.tree.node (ctx.tree.stripParens c) = .binary .notEq left right) :
    ctx.shape c = ctx.comparison false left right := by
  rw [shape, h]

theorem shape_test
    (h : ctx.tree.node (ctx.tree.stripParens c) = .isPattern operand (.literal (.bool t))) :
    ctx.shape c = ctx.literalTest operand t := by
  rw [shape, h]

theorem shape_call {args : List (Argument ctx.Id)}
    (h : ctx.tree.node (ctx.tree.stripParens c) = .invocation operand args) :
    ctx.shape c = ctx.tryCall (ctx.tree.stripParens c) := by
  rw [shape, h]

end Equations

/-! ## Conditions over one discriminant -/

/-- A call is recognized when it is one of a try accessor, and as nothing else. -/
theorem answer_tryCall : ctx.answer (ctx.tryCall c) = .unrecognized ∨
    ∃ call state out, ctx.memberCall? c = some call ∧
      ctx.roleOf? call.receiver call.method = some (.tryAccessor state) ∧
      ctx.answer (ctx.tryCall c) = .tryAccessor call.receiver state out := by
  unfold tryCall
  cases hCall : ctx.memberCall? c with
  | none => exact .inl rfl
  | some call =>
      simp only [Inquiry.answer_bind]
      cases hFamily : ctx.answer (ctx.wrapperFamily? call.receiver) with
      | none => exact .inl (by simp [hFamily])
      | some family =>
          simp only [hFamily, roleOf?]
          split
          · next state hRole => exact .inr ⟨call, state, _, rfl, by simp [hFamily, hRole], rfl⟩
          · exact .inl rfl

theorem answer_shape_of_reads (h : Reads c s P) :
    ctx.answer (ctx.shape c) = .discriminant s P := by
  have hFound := answer_discriminant_iff.2 h.stripParens
  obtain ⟨member, hNode⟩ | ⟨rest, hNode⟩ := h.node_stripParens
  · rw [shape, hNode]
    simp only [Inquiry.answer_bind, hFound, Inquiry.answer_pure]
  · rw [shape, hNode]
    simp only [Inquiry.answer_bind, hFound, Inquiry.answer_pure]

/-- Whatever is none of the other forms is recognized when it reads a discriminant. -/
theorem answer_shape_other
    (hNot : ∀ operand, ctx.tree.node (ctx.tree.stripParens c) = .unary .not operand → False)
    (hAnd : ∀ left right, ctx.tree.node (ctx.tree.stripParens c) = .binary .and left right → False)
    (hOr : ∀ left right, ctx.tree.node (ctx.tree.stripParens c) = .binary .or left right → False)
    (hEq : ∀ left right, ctx.tree.node (ctx.tree.stripParens c) = .binary .eq left right → False)
    (hNotEq : ∀ left right,
      ctx.tree.node (ctx.tree.stripParens c) = .binary .notEq left right → False)
    (hTest : ∀ operand value,
      ctx.tree.node (ctx.tree.stripParens c) = .isPattern operand (.literal (.bool value)) → False)
    (hCall : ∀ callee args,
      ctx.tree.node (ctx.tree.stripParens c) = .invocation callee args → False) :
    ctx.answer (ctx.shape c) = .unrecognized ∨
      ∃ subject state, Reads (ctx.tree.stripParens c) subject state ∧
        ctx.answer (ctx.shape c) = .discriminant subject state := by
  rw [shape]
  split
  case h_8 =>
    simp only [Inquiry.answer_bind]
    cases hRead : ctx.answer (ctx.discriminant? (ctx.tree.stripParens c)) with
    | none => exact .inl (by simp [hRead])
    | some read => exact .inr ⟨read.1, read.2, answer_discriminant_iff.1 hRead, by simp [hRead]⟩
  all_goals simp_all

/-- **The shapes that a negation can turn round are the conditions over one discriminant.** -/
theorem single_shape_iff :
    (ctx.answer (ctx.shape c)).single? = some (s, P, t) ↔ Single c s P t := by
  constructor
  · intro h
    apply Single.of_stripParens
    induction c using shape.induct generalizing t with
    | case1 c operand hNode ih =>
        rw [shape_not hNode, Shape.single?_negate] at h
        obtain ⟨⟨s', P', t'⟩, hOperand, hEq⟩ := Option.map_eq_some_iff.1 h
        obtain ⟨rfl, rfl, rfl⟩ : s' = s ∧ P' = P ∧ (!t') = t := by simpa using hEq
        exact .not hNode (ih hOperand).of_stripParens
    | case2 c left right hNode _ _ =>
        rw [shape_and hNode, Shape.single?_compound rfl] at h
        simp at h
    | case3 c left right hNode _ _ =>
        rw [shape_or hNode, Shape.single?_compound rfl] at h
        simp at h
    | case4 c left right hNode =>
        rw [shape_eq hNode] at h
        rcases single_comparison_iff.1 h with ⟨hRead, hLiteral⟩ | ⟨hRead, hLiteral⟩
        · exact .eqRight hNode hRead (by simpa using hLiteral)
        · exact .eqLeft hNode hRead (by simpa using hLiteral)
    | case5 c left right hNode =>
        rw [shape_notEq hNode] at h
        have hFlip : t = !(t == false) := by simp
        rw [hFlip]
        rcases single_comparison_iff.1 h with ⟨hRead, hLiteral⟩ | ⟨hRead, hLiteral⟩
        · exact .notEqRight hNode hRead hLiteral
        · exact .notEqLeft hNode hRead hLiteral
    | case6 c operand value hNode =>
        rw [shape_test hNode] at h
        obtain ⟨hRead, rfl⟩ := single_literalTest_iff.1 h
        exact .test hNode hRead
    | case7 c callee args hNode =>
        rw [shape_call hNode] at h
        rcases answer_tryCall (c := ctx.tree.stripParens c) with
          hShape | ⟨call, state, out, _, _, hShape⟩
        · simp [hShape, Shape.single?] at h
        · simp [hShape, Shape.single?] at h
    | case8 c hNot hAnd hOr hEq hNotEq hTest hCall =>
        rcases answer_shape_other hNot hAnd hOr hEq hNotEq hTest hCall with
          hShape | ⟨subject, state, hRead, hShape⟩
        · simp [hShape, Shape.single?] at h
        · obtain ⟨rfl, rfl, rfl⟩ : subject = s ∧ state = P ∧ true = t := by
            simpa [hShape, Shape.single?] using h
          exact .read hRead
  · intro h
    induction h with
    | parens hNode _ ih => rw [shape_parens hNode, ih]
    | read hRead => rw [answer_shape_of_reads hRead, Shape.single?]
    | not hNode _ ih =>
        rw [shape_not (by rwa [Arena.stripParens, hNode]), Shape.single?_negate, ih]
        rfl
    | eqRight hNode hRead hLiteral =>
        rw [shape_eq (by rwa [Arena.stripParens, hNode]), single_comparison_iff]
        exact .inl ⟨hRead, by simpa using hLiteral⟩
    | eqLeft hNode hRead hLiteral =>
        rw [shape_eq (by rwa [Arena.stripParens, hNode]), single_comparison_iff]
        exact .inr ⟨hRead, by simpa using hLiteral⟩
    | notEqRight hNode hRead hLiteral =>
        rw [shape_notEq (by rwa [Arena.stripParens, hNode]), single_comparison_iff]
        exact .inl ⟨hRead, by simpa using hLiteral⟩
    | notEqLeft hNode hRead hLiteral =>
        rw [shape_notEq (by rwa [Arena.stripParens, hNode]), single_comparison_iff]
        exact .inr ⟨hRead, by simpa using hLiteral⟩
    | test hNode hRead =>
        rw [shape_test (by rwa [Arena.stripParens, hNode]), single_literalTest_iff]
        exact ⟨hRead, rfl⟩

/-! ## All conditions -/

theorem isSimple_literalTest (operand : ctx.Id) (expected : Bool) :
    (ctx.answer (ctx.literalTest operand expected)).IsSimple := by
  simp only [literalTest, Inquiry.answer_bind]
  cases hRead : ctx.answer (ctx.discriminant? operand) with
  | none => exact .inl (by simp [hRead])
  | some read => exact .inr ⟨(read.1, read.2, expected), by simp [hRead, Shape.single?]⟩

theorem isSimple_comparison (isEquality : Bool) (left right : ctx.Id) :
    (ctx.answer (ctx.comparison isEquality left right)).IsSimple := by
  unfold comparison
  split
  · exact isSimple_literalTest _ _
  · exact isSimple_literalTest _ _
  · exact .inl rfl

theorem Establishes.of_isSimple (hSimple : (ctx.answer (ctx.shape c)).IsSimple)
    (h : (ctx.answer (ctx.shape c)).Proves b s P) : Establishes c b s P := by
  rcases hSimple with hShape | ⟨⟨subject, state, value⟩, hSingle⟩
  · rw [hShape] at h
    exact absurd h Shape.not_proves_unrecognized
  · obtain ⟨rfl, rfl⟩ := (Shape.proves_iff_of_single hSingle).1 h
    exact .single (single_shape_iff.1 hSingle)

theorem Tries.of_tryCall (h : (ctx.answer (ctx.tryCall c)).Proves b s P) :
    b = true ∧ Tries c s P := by
  rcases answer_tryCall (c := c) with hShape | ⟨call, state, out, hCall, hRole, hShape⟩
  · rw [hShape] at h
    exact absurd h Shape.not_proves_unrecognized
  · rw [hShape] at h
    obtain ⟨rfl, rfl, rfl⟩ := Shape.proves_tryAccessor_iff.1 h
    exact ⟨rfl, .call hCall hRole⟩

theorem answer_shape_of_tries (h : Tries c s P) :
    ∃ out, ctx.answer (ctx.shape c) = .tryAccessor s P out := by
  induction h with
  | parens hNode _ ih => rwa [shape_parens hNode]
  | @call c call P hCall hRole =>
      obtain ⟨callee, args, hNode⟩ := exists_invocation_of_memberCall hCall
      have hStrip : ctx.tree.stripParens c = c := by rw [Arena.stripParens, hNode]
      rw [shape_call (by rwa [hStrip]), hStrip]
      unfold roleOf? at hRole
      obtain ⟨family, hFamily, hMember⟩ := Option.bind_eq_some_iff.1 hRole
      simp only [tryCall, hCall, Inquiry.answer_bind, hFamily, hMember, Inquiry.answer_pure]
      exact ⟨_, rfl⟩

theorem Tries.proves_shape (h : Tries c s P) : (ctx.answer (ctx.shape c)).Proves true s P := by
  obtain ⟨out, hShape⟩ := answer_shape_of_tries h
  rw [hShape]
  exact Shape.proves_tryAccessor_iff.2 ⟨rfl, rfl, rfl⟩

/-- **A shape proves what its condition establishes,** in both branches. -/
theorem proves_shape_iff :
    (ctx.answer (ctx.shape c)).Proves b s P ↔ Establishes c b s P := by
  constructor
  · intro h
    induction c using shape.induct generalizing b with
    | case1 c operand hNode _ =>
        exact .of_isSimple (by rw [shape_not hNode]; exact Shape.isSimple_negate _) h
    | case2 c left right hNode ihLeft ihRight =>
        rw [shape_and hNode] at h
        obtain ⟨rfl, hLeft | hRight⟩ := Shape.proves_conjunction_iff.1 h
        · exact .of_stripParens (.andLeft hNode (ihLeft hLeft))
        · exact .of_stripParens (.andRight hNode (ihRight hRight))
    | case3 c left right hNode ihLeft ihRight =>
        rw [shape_or hNode] at h
        obtain ⟨rfl, hLeft | hRight⟩ := Shape.proves_disjunction_iff.1 h
        · exact .of_stripParens (.orLeft hNode (ihLeft hLeft))
        · exact .of_stripParens (.orRight hNode (ihRight hRight))
    | case4 c left right hNode =>
        exact .of_isSimple (by rw [shape_eq hNode]; exact isSimple_comparison ..) h
    | case5 c left right hNode =>
        exact .of_isSimple (by rw [shape_notEq hNode]; exact isSimple_comparison ..) h
    | case6 c operand value hNode =>
        exact .of_isSimple (by rw [shape_test hNode]; exact isSimple_literalTest ..) h
    | case7 c callee args hNode =>
        rw [shape_call hNode] at h
        obtain ⟨rfl, hTries⟩ := Tries.of_tryCall h
        exact .tries hTries.of_stripParens
    | case8 c hNot hAnd hOr hEq hNotEq hTest hCall =>
        refine .of_isSimple ?_ h
        rcases answer_shape_other hNot hAnd hOr hEq hNotEq hTest hCall with
          hShape | ⟨subject, state, _, hShape⟩
        · exact .inl hShape
        · exact .inr ⟨(subject, state, true), by rw [hShape, Shape.single?]⟩
  · intro h
    induction h with
    | parens hNode _ ih => rwa [shape_parens hNode]
    | single hSingle =>
        rw [Shape.proves_iff_of_single (single_shape_iff.2 hSingle)]
        exact ⟨rfl, rfl⟩
    | tries hTries => exact hTries.proves_shape
    | andLeft hNode _ ih =>
        rw [shape_and (by rwa [Arena.stripParens, hNode]), Shape.proves_conjunction_iff]
        exact ⟨rfl, .inl ih⟩
    | andRight hNode _ ih =>
        rw [shape_and (by rwa [Arena.stripParens, hNode]), Shape.proves_conjunction_iff]
        exact ⟨rfl, .inr ih⟩
    | orLeft hNode _ ih =>
        rw [shape_or (by rwa [Arena.stripParens, hNode]), Shape.proves_disjunction_iff]
        exact ⟨rfl, .inl ih⟩
    | orRight hNode _ ih =>
        rw [shape_or (by rwa [Arena.stripParens, hNode]), Shape.proves_disjunction_iff]
        exact ⟨rfl, .inr ih⟩

end Context

end StateGuard
