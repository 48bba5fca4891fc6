import StateGuard.Guard.Walk
import StateGuard.Proofs.Guard.Recognition
import StateGuard.Proofs.Semantics.Location

/-!
# The walk around a use site

The walk upwards from a use site finds a guard exactly when one of the constructs around the site is
a guard by its own meaning and no boundary stands below it.  A guard is a branch whose condition
establishes the required state, a conditional access on the receiver, or a lambda that is called only
in that state.

## Main results

* `answer_verdict`: what one construct decides.
* `ascend_iff`: the walk finds exactly the guards within reach, by induction along the parents.
* `isGuarded_iff`: the same for a predicate with a truth value.
-/

namespace StateGuard.Context

variable {ctx : Context}

/-! ## Guards and boundaries -/

/-- A node that the walk does not leave: a method, the unit, or a lambda where guards are not to reach
through. -/
def IsBoundary (i : ctx.Id) : Prop :=
  match ctx.tree.node i with
  | .method .. => True
  | .compilationUnit .. => True
  | .lambda .. => ctx.config.analysis.crossLambdaBoundaries = false
  | _ => False

/-- A construct around a node, with no boundary between the two. -/
def InReach (i construct : ctx.Id) : Prop :=
  construct ∈ ctx.tree.ancestors i ∧
    ∀ boundary ∈ ctx.tree.ancestors i, IsBoundary boundary →
      ctx.tree.isWithin boundary construct = true → boundary = construct

/-- A lambda that is called only when a wrapper is in some state. -/
def IsCallback (lambda subject : ctx.Id) (state : State) : Prop :=
  (∃ params body isAsync, ctx.tree.node lambda = .lambda params body isAsync) ∧
    ∃ call arg position, ctx.callTaking? lambda = some (call, arg, position) ∧
      ctx.config.callContexts.callbackState? call.method arg.name position = some state ∧
      call.receiver = subject

/-- The part of a construct that runs for one outcome of its condition contains a node. -/
def RunsOn (i construct condition : ctx.Id) (branch : Branch) : Prop :=
  ctx.tree.condition? construct = some condition ∧ ctx.tree.isUnder i construct branch = true

/-- The node lies behind a conditional access on the receiver of the site. -/
def SafelyAccessed (site : ctx.UseSite) (construct : ctx.Id) : Prop :=
  ∃ receiver rest, ctx.tree.node construct = .conditionalAccess receiver rest ∧
    ctx.tree.isWithin site.node rest = true ∧
    (receiver = site.receiver ∨ ctx.sameLocation receiver site.receiver = true)

/-- A branch around the site proves that its receiver is in the required state. -/
def GuardedByBranch (site : ctx.UseSite) (required : State) (construct : ctx.Id) : Prop :=
  ∃ condition branch subject, RunsOn site.node construct condition branch ∧
    Establishes condition branch.outcome subject required ∧
    ctx.sameLocation subject site.receiver = true

/-- The site lies in a lambda that is called only when its receiver is in the required state. -/
def GuardedByCall (site : ctx.UseSite) (required : State) (construct : ctx.Id) : Prop :=
  ∃ subject, IsCallback construct subject required ∧
    ctx.sameLocation subject site.receiver = true

/-- A construct makes sure that the site runs in the required state only. -/
def Guards (site : ctx.UseSite) (required : State) (construct : ctx.Id) : Prop :=
  SafelyAccessed site construct ∨ GuardedByCall site required construct ∨
    GuardedByBranch site required construct

/-! ## One construct -/

section Verdict

variable {site : ctx.UseSite} {required : State} {construct : ctx.Id}

theorem branchProves_iff : ctx.answer (branchProves site required construct) = true ↔
    GuardedByBranch site required construct := by
  unfold branchProves GuardedByBranch RunsOn
  cases hCondition : ctx.tree.condition? construct with
  | none => simp
  | some condition =>
      simp only [factsAbout, facts, Inquiry.answer_bind, Inquiry.answer_pure, List.any_eq_true,
        List.mem_filter, Bool.and_eq_true, decide_eq_true_eq, Option.some.injEq]
      constructor
      · rintro ⟨fact, ⟨hFact, hSame⟩, hState, hUnder⟩
        exact ⟨condition, fact.branch, fact.subject, ⟨rfl, hUnder⟩,
          proves_shape_iff.1 ⟨fact, hFact, rfl, rfl, hState⟩, hSame⟩
      · rintro ⟨_, branch, _, ⟨rfl, hUnder⟩, hEstablishes, hSame⟩
        obtain ⟨fact, hFact, hOutcome, rfl, hState⟩ := proves_shape_iff.2 hEstablishes
        have hBranch : fact.branch = branch := by
          cases hLeft : fact.branch <;> cases hRight : branch <;> simp_all [Branch.outcome]
        exact ⟨fact, ⟨hFact, hSame⟩, hState, hBranch ▸ hUnder⟩

theorem not_guardedByBranch (h : ctx.tree.condition? construct = none) :
    ¬ GuardedByBranch site required construct := by
  rintro ⟨condition, branch, subject, ⟨hCondition, _⟩, _⟩
  simp [h] at hCondition

theorem not_safelyAccessed
    (h : ∀ receiver rest, ctx.tree.node construct ≠ .conditionalAccess receiver rest) :
    ¬ SafelyAccessed site construct := by
  rintro ⟨receiver, rest, hNode, _⟩
  exact h receiver rest hNode

theorem not_guardedByCall
    (h : ∀ params body isAsync, ctx.tree.node construct ≠ .lambda params body isAsync) :
    ¬ GuardedByCall site required construct := by
  rintro ⟨subject, ⟨⟨params, body, isAsync, hNode⟩, _⟩, _⟩
  exact h params body isAsync hNode

/-- The part of a construct that the site is in is the only one that contains it. -/
theorem isWithin_part_iff {child part : ctx.Id} (hParent : ctx.tree.parent child = some construct)
    (hWithin : ctx.tree.isWithin site.node child = true)
    (hPart : part ∈ (ctx.tree.node construct).children) :
    ctx.tree.isWithin site.node part = true ↔ child = part := by
  constructor
  · intro h
    exact Arena.eq_of_isWithin_parts ((ctx.tree.parent_eq_some_iff _ _).1 hParent) hPart hWithin h
  · rintro rfl
    exact hWithin

theorem safelyAccessed_iff {child receiver rest : ctx.Id}
    (hNode : ctx.tree.node construct = .conditionalAccess receiver rest)
    (hParent : ctx.tree.parent child = some construct)
    (hWithin : ctx.tree.isWithin site.node child = true) :
    SafelyAccessed site construct ↔ child = rest ∧
      (receiver = site.receiver ∨ ctx.sameLocation receiver site.receiver = true) := by
  have hRest : rest ∈ (ctx.tree.node construct).children := by simp [hNode, Node.children]
  rw [← isWithin_part_iff hParent hWithin hRest]
  unfold SafelyAccessed
  constructor
  · rintro ⟨receiver', rest', hNode', h⟩
    obtain ⟨rfl, rfl⟩ : receiver = receiver' ∧ rest = rest' := by simpa [hNode] using hNode'
    exact h
  · intro h
    exact ⟨receiver, rest, hNode, h⟩

theorem guardedByCall_iff {params : List ctx.Id} {body : ctx.Id} {isAsync : Bool}
    (hNode : ctx.tree.node construct = .lambda params body isAsync) {call : ctx.MemberCall}
    {arg : Argument ctx.Id} {position : Nat}
    (hTaking : ctx.callTaking? construct = some (call, arg, position)) :
    GuardedByCall site required construct ↔
      ctx.config.callContexts.callbackState? call.method arg.name position = some required ∧
        ctx.sameLocation call.receiver site.receiver = true := by
  unfold GuardedByCall IsCallback
  constructor
  · rintro ⟨_, ⟨_, call', arg', position', hTaking', hState, rfl⟩, hSame⟩
    obtain ⟨rfl, rfl, rfl⟩ : call = call' ∧ arg = arg' ∧ position = position' := by
      simpa [hTaking] using hTaking'
    exact ⟨hState, hSame⟩
  · rintro ⟨hState, hSame⟩
    exact ⟨call.receiver, ⟨⟨params, body, isAsync, hNode⟩, call, arg, position, hTaking, hState, rfl⟩,
      hSame⟩

open Classical in
theorem lambdaVerdict_eq {params : List ctx.Id} {body : ctx.Id} {isAsync : Bool}
    (hNode : ctx.tree.node construct = .lambda params body isAsync) :
    lambdaVerdict site required construct =
      if GuardedByCall site required construct then .guarded
      else if ctx.config.analysis.crossLambdaBoundaries = false then .unguarded
      else .undecided := by
  have hBoundary : (if ctx.config.analysis.crossLambdaBoundaries = true then Verdict.undecided
      else .unguarded) = if ctx.config.analysis.crossLambdaBoundaries = false then .unguarded
      else .undecided := by
    cases ctx.config.analysis.crossLambdaBoundaries <;> rfl
  unfold lambdaVerdict
  cases hTaking : ctx.callTaking? construct with
  | none =>
      have hCall : ¬ GuardedByCall site required construct := by
        rintro ⟨_, ⟨_, call, arg, position, hSome, _⟩, _⟩
        simp [hTaking] at hSome
      simp only [hCall, if_false, Bool.false_eq_true, hBoundary]
  | some taking =>
      obtain ⟨call, arg, position⟩ := taking
      simp only [guardedByCall_iff hNode hTaking, Bool.and_eq_true, decide_eq_true_eq, hBoundary]

open Classical in
/-- **What one construct decides,** given the part of it that the site is in. -/
theorem answer_verdict {child : ctx.Id} (hParent : ctx.tree.parent child = some construct)
    (hWithin : ctx.tree.isWithin site.node child = true) :
    ctx.answer (verdict site required child construct) =
      if Guards site required construct then .guarded
      else if IsBoundary construct then .unguarded else .undecided := by
  unfold verdict Guards IsBoundary
  split
  · next receiver rest hNode =>
      have hCall : ¬ GuardedByCall site required construct := not_guardedByCall (by simp [hNode])
      have hBranch : ¬ GuardedByBranch site required construct :=
        not_guardedByBranch (by simp [Arena.condition?, hNode])
      simp only [hNode, hCall, hBranch, or_false, Inquiry.answer_pure, if_false]
      simp only [safelyAccessed_iff hNode hParent hWithin, accessVerdict, Bool.and_eq_true,
        Bool.or_eq_true, decide_eq_true_eq]
  · next params body isAsync hNode =>
      have hAccess : ¬ SafelyAccessed site construct := not_safelyAccessed (by simp [hNode])
      have hBranch : ¬ GuardedByBranch site required construct :=
        not_guardedByBranch (by simp [Arena.condition?, hNode])
      simp only [hNode, hAccess, hBranch, or_false, false_or, Inquiry.answer_pure,
        lambdaVerdict_eq hNode]
  · next hNode =>
      have hAccess : ¬ SafelyAccessed site construct := not_safelyAccessed (by simp [hNode])
      have hCall : ¬ GuardedByCall site required construct := not_guardedByCall (by simp [hNode])
      have hBranch : ¬ GuardedByBranch site required construct :=
        not_guardedByBranch (by simp [Arena.condition?, hNode])
      simp [hNode, hAccess, hCall, hBranch]
  · next hNode =>
      have hAccess : ¬ SafelyAccessed site construct := not_safelyAccessed (by simp [hNode])
      have hCall : ¬ GuardedByCall site required construct := not_guardedByCall (by simp [hNode])
      have hBranch : ¬ GuardedByBranch site required construct :=
        not_guardedByBranch (by simp [Arena.condition?, hNode])
      simp [hNode, hAccess, hCall, hBranch]
  · next hNoAccess hNoLambda hNoMethod hNoUnit =>
      have hAccess : ¬ SafelyAccessed site construct := not_safelyAccessed hNoAccess
      have hCall : ¬ GuardedByCall site required construct := not_guardedByCall hNoLambda
      simp only [hAccess, hCall, false_or, Inquiry.answer_bind, branchProves_iff,
        Inquiry.answer_pure]
      split
      · simp_all
      all_goals simp_all

/-! ## The walk -/

/-- What is in reach of a node: its parent, and unless that is a boundary, what is in reach of the
parent. -/
theorem inReach_iff_of_parent {i p a : ctx.Id} (hParent : ctx.tree.parent i = some p) :
    InReach i a ↔ a = p ∨ (¬ IsBoundary p ∧ InReach p a) := by
  unfold InReach
  rw [Arena.ancestors_of_parent hParent]
  constructor
  · rintro ⟨hMem, hClear⟩
    rcases List.mem_cons.1 hMem with rfl | hAbove
    · exact .inl rfl
    · refine .inr ⟨?_, hAbove, ?_⟩
      · intro hBoundary
        obtain ⟨hNe, hWithin⟩ := Arena.mem_ancestors_iff.1 hAbove
        exact hNe (hClear p List.mem_cons_self hBoundary hWithin)
      · intro boundary hBoundary
        exact hClear boundary (List.mem_cons_of_mem _ hBoundary)
  · rintro (rfl | ⟨hOpen, hAbove, hClear⟩)
    · refine ⟨List.mem_cons_self, ?_⟩
      intro boundary hMem _ hWithin
      rcases List.mem_cons.1 hMem with rfl | hMem
      · rfl
      · exact Arena.isWithin_antisymm hWithin (Arena.mem_ancestors_iff.1 hMem).2
    · refine ⟨List.mem_cons_of_mem _ hAbove, ?_⟩
      intro boundary hMem hBoundary
      rcases List.mem_cons.1 hMem with rfl | hMem
      · exact absurd hBoundary hOpen
      · exact hClear boundary hMem hBoundary

/-- **The walk finds exactly the guards within reach.** -/
theorem ascend_iff {child : ctx.Id} (hWithin : ctx.tree.isWithin site.node child = true) :
    ctx.answer (ascend site required child (ctx.tree.ancestors child)) = true ↔
      ∃ construct, InReach child construct ∧ Guards site required construct := by
  induction child using Arena.induction_parent with
  | step child ih =>
      cases hParent : ctx.tree.parent child with
      | none =>
          simp [InReach, Arena.ancestors_of_parent_none hParent, ascend]
      | some p =>
          have hAbove : ctx.tree.isWithin site.node p = true :=
            Arena.isWithin_trans hWithin (Arena.isWithin_of_parent hParent (Arena.isWithin_self p))
          rw [Arena.ancestors_of_parent hParent, ascend]
          simp only [Inquiry.answer_bind, answer_verdict hParent hWithin,
            inReach_iff_of_parent hParent]
          by_cases hGuards : Guards site required p
          · rw [if_pos hGuards]
            exact ⟨fun _ => ⟨p, .inl rfl, hGuards⟩, fun _ => rfl⟩
          by_cases hBoundary : IsBoundary p
          · rw [if_neg hGuards, if_pos hBoundary]
            constructor
            · intro h
              exact absurd h (by simp)
            · rintro ⟨a, rfl | ⟨hOpen, _⟩, hGuards'⟩
              · exact absurd hGuards' hGuards
              · exact absurd hBoundary hOpen
          · rw [if_neg hGuards, if_neg hBoundary]
            show ctx.answer (ascend site required p (ctx.tree.ancestors p)) = true ↔ _
            rw [ih p hParent hAbove]
            constructor
            · rintro ⟨a, hReach, hGuards'⟩
              exact ⟨a, .inr ⟨hBoundary, hReach⟩, hGuards'⟩
            · rintro ⟨a, rfl | ⟨_, hReach⟩, hGuards'⟩
              · exact absurd hGuards' hGuards
              · exact ⟨a, hReach, hGuards'⟩

end Verdict

/-- A predicate that implies a state is guarded by the guards for that state; one that implies none is
never guarded. -/
theorem isGuarded_iff {site : ctx.UseSite} {predicate : Predicate} {truth : Bool} :
    ctx.answer (isGuarded site predicate truth) = true ↔
      ∃ required, predicate.impliedState? truth = some required ∧
        ∃ construct, InReach site.node construct ∧ Guards site required construct := by
  unfold isGuarded
  cases hImplied : predicate.impliedState? truth with
  | none => simp
  | some required => simp [ascend_iff (Arena.isWithin_self site.node)]

end StateGuard.Context
