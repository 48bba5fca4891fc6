import StateGuard.Proofs.Analysis.Outcome
import StateGuard.Proofs.Config.Acceptance
import StateGuard.Proofs.Guard.Ascent
import StateGuard.Proofs.Guard.Facts
import StateGuard.Proofs.Semantics.Location

/-!
# Spelled-out defaults

A conditional expression is reported as a spelled-out default if it reads the ok payload of its
subject in one arm.  `Selects` says which arms it can come to, by what its condition can evaluate to,
and the report is right if these are the arms that a default would choose.

The rule finds the arm by the first fact that makes the subject ok, the walk up from the payload finds
the facts of the same condition about the receiver of the payload.  Both come from the one test that
the condition is, so the read counts as guarded, whatever is around the conditional expression: the
walk decides before it leaves the arm.

## Main results

* `selects_iff_of_ternaryParts`: the arms that a conditional expression over one test can come to.
* `isGuardedForAccess_of_ternaryParts`: a read of the payload in the arm for ok is guarded.
* `reported_conditional_is_a_default`: **a report suggests what the expression means, and its payload
  is reported by no other rule.**
-/

namespace StateGuard

namespace Context

variable {ctx : Context} {i condition whenTrue whenFalse s payload fallback : ctx.Id}

/-! ## The arms of a conditional expression -/

/-- A conditional expression can come to an arm. -/
def Selects (σ : ctx.Assignment) (i arm : ctx.Id) : Prop :=
  ∃ condition whenTrue whenFalse b, ctx.tree.node i = .conditional condition whenTrue whenFalse ∧
    σ.allows condition b = true ∧ arm = if b then whenTrue else whenFalse

/-- What reading the payload of a subject with a default comes to: the payload if the subject is ok,
and else the default. -/
def valueOrDefault (σ : ctx.Assignment) (s payload fallback : ctx.Id) : ctx.Id :=
  match σ.state s with
  | .ok => payload
  | .notOk => fallback

theorem exists_single_of_subject {shape : Shape ctx.Id} (h : shape.subject? = some s) :
    ∃ P t, shape.single? = some (s, P, t) := by
  cases shape <;> simp_all [Shape.subject?, Shape.single?]

/-- The test of a shape makes its subject ok in the branch that is found for it. -/
theorem state_eq_ok_of_okBranch {shape : Shape ctx.Id} {P : State} {t : Bool} {branch : Branch}
    (hSingle : shape.single? = some (s, P, t)) (h : okBranch? shape = some branch) :
    (if branch.outcome = t then P else P.flip) = .ok := by
  rw [okBranch?, Shape.facts_of_single hSingle] at h
  obtain ⟨fact, hFact, rfl⟩ := Option.map_eq_some_iff.1 h
  have hState : fact.impliedState? = some .ok := by simpa using List.find?_some hFact
  have hMem := List.mem_of_find?_eq_some hFact
  simp only [Shape.split, List.mem_cons, List.not_mem_nil, or_false] at hMem
  rcases hMem with rfl | rfl
  · cases t <;> exact Option.some.inj hState
  · cases t <;> exact Option.some.inj hState

/-- The parts that are found are a test of the subject, and the arm for each of its outcomes. -/
theorem exists_single_of_ternaryParts
    (h : ctx.ternaryParts? (ctx.answer (ctx.shape condition)) whenTrue whenFalse =
      some (s, payload, fallback)) :
    ∃ P t b, Single condition s P t ∧ (if b = t then P else P.flip) = .ok ∧
      payload = (if b then whenTrue else whenFalse) ∧
      fallback = (if b then whenFalse else whenTrue) := by
  simp only [ternaryParts?, Option.bind_eq_bind, Option.bind_eq_some_iff] at h
  obtain ⟨subject, hSubject, branch, hBranch, hArms⟩ := h
  obtain ⟨P, t, hShape⟩ := exists_single_of_subject hSubject
  have hOk := state_eq_ok_of_okBranch hShape hBranch
  cases branch with
  | whenTrue =>
      obtain ⟨rfl, rfl, rfl⟩ : subject = s ∧ whenTrue = payload ∧ whenFalse = fallback := by
        simpa using hArms
      exact ⟨P, t, true, single_shape_iff.1 hShape, hOk, rfl, rfl⟩
  | whenFalse =>
      obtain ⟨rfl, rfl, rfl⟩ : subject = s ∧ whenFalse = payload ∧ whenTrue = fallback := by
        simpa using hArms
      exact ⟨P, t, false, single_shape_iff.1 hShape, hOk, rfl, rfl⟩

/-- **The arms that a conditional expression over one test can come to** are those that a default
chooses, whatever the state of the subject. -/
theorem selects_iff_of_ternaryParts
    (hNode : ctx.tree.node i = .conditional condition whenTrue whenFalse)
    (hParts : ctx.ternaryParts? (ctx.answer (ctx.shape condition)) whenTrue whenFalse =
      some (s, payload, fallback)) (σ : ctx.Assignment) (arm : ctx.Id) :
    Selects σ i arm ↔ arm = valueOrDefault σ s payload fallback := by
  obtain ⟨P, t, b, hSingle, hOk, rfl, rfl⟩ := exists_single_of_ternaryParts hParts
  have hNotOk : (if (!b) = t then P else P.flip) = .notOk := by
    cases b <;> cases t <;> cases P <;> simp_all [State.flip]
  -- the condition has the outcome of the arm for ok exactly when the subject is ok
  have hAllows : ∀ outcome, σ.allows condition outcome = true ↔
      outcome = if σ.state s = .ok then b else !b := by
    intro outcome
    rw [hSingle.allows_iff]
    obtain rfl | rfl : outcome = b ∨ outcome = !b := by
      cases outcome <;> cases b <;> decide
    · rw [hOk]
      cases σ.state s <;> simp
    · rw [hNotOk]
      cases σ.state s <;> simp
  constructor
  · rintro ⟨_, _, _, outcome, hNode', hOutcome, rfl⟩
    obtain ⟨rfl, rfl, rfl⟩ := Node.conditional.inj (hNode.symm.trans hNode')
    rw [(hAllows outcome).1 hOutcome, valueOrDefault]
    cases σ.state s <;> cases b <;> rfl
  · rintro rfl
    refine ⟨condition, whenTrue, whenFalse, _, hNode, (hAllows _).2 rfl, ?_⟩
    rw [valueOrDefault]
    cases σ.state s <;> cases b <;> rfl

/-! ## The payload in its arm -/

/-- Parentheses are no boundary. -/
theorem InReach.stripParens {j construct : ctx.Id} (h : InReach j construct) :
    InReach (ctx.tree.stripParens j) construct := by
  fun_induction Arena.stripParens ctx.tree.toArena j with
  | case1 j inner hNode ih =>
      have hParent : ctx.tree.parent inner = some j :=
        (ctx.tree.parent_eq_some_iff _ _).2 (by simp [hNode, Node.children])
      exact ih ((inReach_iff_of_parent hParent).2 (.inr ⟨by simp [IsBoundary, hNode], h⟩))
  | case2 j _ => exact h

/-- **A read of the payload in the arm for ok is guarded,** if it reads the place of the subject. -/
theorem isGuardedForAccess_of_ternaryParts {site : ctx.UseSite}
    (hNode : ctx.tree.node i = .conditional condition whenTrue whenFalse)
    (hParts : ctx.ternaryParts? (ctx.answer (ctx.shape condition)) whenTrue whenFalse =
      some (s, payload, fallback))
    (hSite : site.node = ctx.tree.stripParens payload) (hRequired : site.required = .ok)
    (hSame : ctx.sameLocation site.receiver s = true) :
    ctx.answer (isGuardedForAccess site) = true := by
  obtain ⟨P, t, b, hSingle, hOk, rfl, -⟩ := exists_single_of_ternaryParts hParts
  have hArm : (if b then whenTrue else whenFalse) ∈ (ctx.tree.node i).children := by
    cases b <;> simp [hNode, Node.children]
  have hReach : InReach site.node i := by
    rw [hSite]
    have hParent := (ctx.tree.parent_eq_some_iff _ _).2 hArm
    exact ((inReach_iff_of_parent hParent).2 (.inl rfl)).stripParens
  have hRuns : RunsOn site.node i condition (if b then .whenTrue else .whenFalse) := by
    have hWithin := @Arena.isWithin_stripParens ctx.tree.toArena (if b then whenTrue else whenFalse)
    refine ⟨by simp [Arena.condition?, hNode], ?_⟩
    cases b <;> simpa [Arena.isUnder, Arena.branch?, hNode, hSite] using hWithin
  have hEstablishes : Establishes condition b s .ok := hOk ▸ Establishes.single hSingle
  have hImplied : (Predicate.discriminant site.required).impliedState? true = some .ok := by
    rw [hRequired]
    rfl
  refine isGuarded_iff.2 ⟨.ok, hImplied, i, hReach, .inr (.inr ?_)⟩
  refine ⟨condition, _, s, hRuns, ?_, ?_⟩
  · cases b <;> exact hEstablishes
  · exact (sameLocation_comm _ _).trans hSame

/-! ## What a report is worth -/

/-- **A report suggests what the expression means.**  By an accepted configuration, a conditional
expression is reported only if, whatever the state of its subject, the arms that it can come to are
those that a default chooses: the one that reads the ok payload from the place of the subject if that
is ok, and else the fallback.  If the receiver of the payload is of the same family as the subject,
neither rule about payload reads reports that read, whatever is around the expression. -/
theorem reported_conditional_is_a_default {d : Diagnostic} (hAccepted : ctx.config.error? = none)
    (hFound : ctx.answer (ctx.ternary? i) = some d) :
    ∃ condition whenTrue whenFalse s payload fallback receiver member,
      ctx.tree.node i = .conditional condition whenTrue whenFalse ∧
      ctx.ternaryParts? (ctx.answer (ctx.shape condition)) whenTrue whenFalse =
        some (s, payload, fallback) ∧
      d = ctx.report .ternary i
        [ctx.tree.render i, ctx.tree.render s, ctx.tree.render fallback] ∧
      ctx.tree.node (ctx.tree.stripParens payload) = .memberAccess receiver member ∧
      ctx.roleOf? s member = some (.payload .ok) ∧ ctx.sameLocation receiver s = true ∧
      (∀ (σ : ctx.Assignment) (arm : ctx.Id),
        Selects σ i arm ↔ arm = valueOrDefault σ s payload fallback) ∧
      (ctx.answer (ctx.wrapperFamily? receiver) = ctx.answer (ctx.wrapperFamily? s) →
        ctx.answer (ctx.directAccess? (ctx.tree.stripParens payload)) = none ∧
        ctx.answer (ctx.projectionAccess? (ctx.tree.stripParens payload)) = none) := by
  obtain ⟨condition, whenTrue, whenFalse, s, payload, fallback, receiver, member, index, family, hNode,
    hParts, hPayload, hIndex, hFamily, hMember, hSame, hReport⟩ := exists_parts_of_ternary hFound
  have hRole : ctx.config.role? index member = some (.payload .ok) := by
    rw [Config.role?, hFamily]
    exact Family.role?_of_payload (Config.error?_of_family hAccepted hFamily) hMember
  refine ⟨condition, whenTrue, whenFalse, s, payload, fallback, receiver, member, hNode, hParts,
    hReport, hPayload, by rw [roleOf?, hIndex]; exact hRole, hSame,
    selects_iff_of_ternaryParts hNode hParts, fun hKind => ?_⟩
  let site : ctx.UseSite := ⟨ctx.tree.stripParens payload, member, receiver, index, .ok⟩
  have hSite : ctx.answer (ctx.useSite? (ctx.tree.stripParens payload)) = some site :=
    useSite_eq_some_iff.2 ⟨rfl, by rw [readMember?, hPayload], hKind.trans hIndex, hRole⟩
  have hGuarded : ctx.answer (isGuardedForAccess site) = true :=
    isGuardedForAccess_of_ternaryParts hNode hParts rfl rfl hSame
  exact ⟨answer_directAccess_of_guarded hSite hGuarded,
    answer_projectionAccess_of_guarded hSite hGuarded⟩

/-- The tree of `!r.IsSuccess ? 0 : (r.Value)`. -/
def negatedDefault : Tree where
  size := 8
  node i := #v[.identifier "r", .memberAccess 0 "IsSuccess", .unary .not 1, .literal (.int 0),
    .identifier "r", .memberAccess 4 "Value", .parenthesized 5, .conditional 2 3 6][i]
  root := 7
  parent i := #v[some 1, some 2, some 7, some 7, some 5, some 6, some 7, none][i]
  depth i := #v[3, 2, 1, 1, 3, 2, 1, 0][i]
  parent_eq_some_iff := by decide
  children_nodup := by decide
  parent_root := by decide
  depth_of_parent := by decide
  depth_le_size := by decide
  file := "default.cs"
  span _ := ⟨.origin, .origin⟩

/-- The expression `!r.IsSuccess ? 0 : (r.Value)` about a result. -/
def spelledOut : Context := .ofUnit
  ⟨negatedDefault, ((((Oracle.empty 8).setSymbol 0 "r@0").setSymbol 4 "r@0").setType 0
    (.generic "CSharpFunctionalExtensions.Result" [.named "int"])).setType 4
    (.generic "CSharpFunctionalExtensions.Result" [.named "int"])⟩ {}

/-- The subject, the read of its payload and the fallback. -/
def spelledOutParts : spelledOut.Id × spelledOut.Id × spelledOut.Id :=
  ((0 : Fin 8), (6 : Fin 8), (3 : Fin 8))

/-- A default that is spelled out with a negation is reported for what it means, and its payload is
not. -/
theorem negated_default_is_reported :
    (spelledOut.answer (spelledOut.ternary? (7 : Fin 8))).isSome = true ∧
      (∀ (σ : spelledOut.Assignment) (arm : Fin 8), @Selects spelledOut σ (7 : Fin 8) arm ↔
        arm = valueOrDefault σ (0 : Fin 8) (6 : Fin 8) (3 : Fin 8)) ∧
      spelledOut.answer (spelledOut.directAccess? (5 : Fin 8)) = none ∧
      spelledOut.answer (spelledOut.projectionAccess? (5 : Fin 8)) = none := by
  have hSome : (spelledOut.answer (spelledOut.ternary? (7 : Fin 8))).isSome = true := by
    decide +kernel
  obtain ⟨d, hFound⟩ := Option.isSome_iff_exists.1 hSome
  obtain ⟨condition, whenTrue, whenFalse, s, payload, fallback, receiver, member, hNode, hParts, -,
    hPayload, -, -, hSelects, hSilent⟩ :=
    @reported_conditional_is_a_default spelledOut (7 : Fin 8) d rfl hFound
  obtain ⟨rfl, rfl, rfl⟩ := Node.conditional.inj hNode
  have hTest : spelledOut.ternaryParts? (spelledOut.answer (spelledOut.shape (2 : Fin 8)))
      (3 : Fin 8) (6 : Fin 8) = some spelledOutParts := by
    decide +kernel
  obtain ⟨rfl, hArms⟩ := Prod.mk.inj (Option.some.inj (hTest.symm.trans hParts))
  obtain ⟨rfl, rfl⟩ := Prod.mk.inj hArms
  have hStrip : spelledOut.tree.stripParens (6 : Fin 8) = (5 : Fin 8) := by
    rw [stripParens_parens (rfl : spelledOut.tree.node (6 : Fin 8) = .parenthesized (5 : Fin 8))]
    exact Arena.stripParens_of_bare (by decide +kernel)
  rw [hStrip] at hPayload hSilent
  obtain ⟨rfl, rfl⟩ := Node.memberAccess.inj hPayload
  exact ⟨hSome, hSelects, hSilent (by decide +kernel)⟩

end Context

end StateGuard
