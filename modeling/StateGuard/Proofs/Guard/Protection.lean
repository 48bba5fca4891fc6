import StateGuard.Finding.DirectAccess
import StateGuard.Finding.Projection
import StateGuard.Proofs.Guard.Transfer

/-!
# What protects a read in corresponding units

A node and its counterpart read the same payload and stand for the elements of the same projection.
A configuration that trusts more may call a read guarded, exempt or filtered that another one does
not, never the other way round.

## Main results

* `Transfer.useSite_map`, `Transfer.projection_map`: reads and the projections around them.
* `Transfer.isGuarded_map`, `Transfer.isFactoryCall_map`, `Transfer.isFiltered_map`: what is guarded, made
  by a trusted factory or filtered stays so.
-/

namespace StateGuard.Context

open Arena

namespace Transfer

variable {A B : Context} (t : Transfer A B) {i : A.Id}

/-! ## Reads -/

theorem bindingReceiver_map (hi : t.kept i = true) :
    B.bindingReceiver? (t.map i) = (A.bindingReceiver? i).map t.map := by
  unfold bindingReceiver?
  rw [t.ancestors_map hi]
  apply findSome?_map_of_mem
  intro a ha
  have hKept := t.kept_of_mem_ancestors hi ha
  rw [t.node_map hKept]
  cases hNode : A.tree.node a with
  | conditionalAccess receiver rest =>
      have hInner : (A.tree.node a).kind.isInner = true := by rw [hNode]; rfl
      have hRest : t.Whole rest :=
        (Embedding.whole_of_kept hKept hInner).part (by simp [hNode, Node.children])
      simp only [Node.map_conditionalAccess, t.isWithin_map hi hRest.kept]
      split
      · rfl
      · rfl
  | _ => simp

theorem readMember_map (hi : t.kept i = true) :
    B.readMember? (t.map i) = (A.readMember? i).map (Prod.map t.map id) := by
  unfold readMember?
  rw [t.node_map hi]
  cases A.tree.node i with
  | memberAccess receiver member => rfl
  | memberBinding member =>
      simp only [Node.map_memberBinding, t.bindingReceiver_map hi, Option.map_map]
      rfl
  | _ => simp

/-- What a node reads a member of has a counterpart. -/
theorem whole_of_readMember (hi : t.kept i = true) {receiver : A.Id} {member : String}
    (h : A.readMember? i = some (receiver, member)) : t.Whole receiver := by
  unfold readMember? at h
  split at h
  · next hNode =>
      obtain ⟨rfl, -⟩ := Prod.mk.inj (Option.some.inj h)
      have hInner : (A.tree.node i).kind.isInner = true := by rw [hNode]; rfl
      exact (Embedding.whole_of_kept hi hInner).part (by simp [hNode, Node.children])
  · obtain ⟨receiver', hReceiver, hEq⟩ := Option.map_eq_some_iff.1 h
    obtain ⟨rfl, -⟩ := Prod.mk.inj hEq
    obtain ⟨access, hAccess, hFound⟩ := List.exists_of_findSome?_eq_some hReceiver
    split at hFound
    · next hNode =>
        split at hFound
        · obtain rfl := Option.some.inj hFound
          have hInner : (A.tree.node access).kind.isInner = true := by rw [hNode]; rfl
          exact (Embedding.whole_of_kept (t.kept_of_mem_ancestors hi hAccess) hInner).part
            (by simp [hNode, Node.children])
        · simp at hFound
    · simp at hFound
  · simp at h

/-- **A node and its counterpart read the same payload.** -/
theorem useSite_map (hi : t.kept i = true) :
    B.answer (B.useSite? (t.map i)) = (A.answer (A.useSite? i)).map t.site := by
  unfold useSite?
  rw [t.readMember_map hi]
  cases hRead : A.readMember? i with
  | none => rfl
  | some read =>
      have hReceiver : t.Whole read.1 := t.whole_of_readMember hi hRead
      simp only [Option.map_some, Prod.map, id, Inquiry.answer_bind, t.wrapperFamily_map hReceiver,
        t.role_map, Context.answer]
      cases (A.wrapperFamily? read.1).answer A.config.classify with
      | none => rfl
      | some family =>
          dsimp only
          cases A.config.role? family read.2 with
          | none => rfl
          | some role => cases role <;> rfl

theorem lambdaParameter_map (h : t.Whole i) :
    B.lambdaParameter? (t.map i) = (A.lambdaParameter? i).map (Prod.map t.map id) := by
  unfold lambdaParameter?
  rw [Embedding.node_stripParens_map h, Embedding.stripParens_map h]
  cases A.tree.node (A.tree.stripParens i) with
  | identifier name =>
      simp only [Node.map_identifier, t.ancestors_map h.stripParens.kept]
      apply findSome?_map_of_mem
      intro a ha
      have hKept := t.kept_of_mem_ancestors h.stripParens.kept ha
      rw [t.node_map hKept]
      cases hNode : A.tree.node a with
      | lambda params body isAsync =>
          have hInner : (A.tree.node a).kind.isInner = true := by rw [hNode]; rfl
          have hParams : ∀ p ∈ params, t.kept p = true := by
            intro p hp
            refine ((Embedding.whole_of_kept hKept hInner).part ?_).kept
            rw [hNode]
            exact List.mem_append_left _ hp
          have hFind : (params.map t.map).findIdx?
                (fun p => B.oracle.sameSymbol p (t.map (A.tree.stripParens i))) =
              params.findIdx? fun p => A.oracle.sameSymbol p (A.tree.stripParens i) :=
            findIdx?_map_of_mem fun p hp => t.sameSymbol_map (hParams p hp) h.stripParens.kept
          simp only [Node.map_lambda, hFind]
          cases params.findIdx? fun p => A.oracle.sameSymbol p (A.tree.stripParens i) with
          | none => rfl
          | some position => rfl
      | _ => simp
  | _ => simp

/-- The lambda around an expression has a counterpart. -/
theorem kept_of_lambdaParameter (h : t.Whole i) {lambda : A.Id} {position : Nat}
    (hFound : A.lambdaParameter? i = some (lambda, position)) : t.kept lambda = true := by
  unfold lambdaParameter? at hFound
  split at hFound
  · obtain ⟨ancestor, hAncestor, hHere⟩ := List.exists_of_findSome?_eq_some hFound
    split at hHere
    · obtain ⟨_, _, hEq⟩ := Option.map_eq_some_iff.1 hHere
      obtain ⟨rfl, -⟩ := Prod.mk.inj hEq
      exact t.kept_of_mem_ancestors h.stripParens.kept hAncestor
    · simp at hHere
  · simp at hFound

include t in
theorem isProjection_map (method : String) :
    B.config.pipeline.isProjection method = A.config.pipeline.isProjection method := by
  rw [Pipeline.isProjection, Pipeline.isProjection, t.trusts.projectionMethods]

/-- **An expression and its counterpart stand for the elements of the same projection.** -/
theorem projection_map (h : t.Whole i) :
    B.projection? (t.map i) = (A.projection? i).map (Prod.map t.call t.map) := by
  unfold projection?
  rw [t.lambdaParameter_map h]
  cases hFound : A.lambdaParameter? i with
  | none => rfl
  | some found =>
      obtain ⟨lambda, position⟩ := found
      cases position with
      | succ position => rfl
      | zero =>
          simp only [Option.map_some, Prod.map, id,
            t.callTaking_map (t.kept_of_lambdaParameter h hFound)]
          cases A.callTaking? lambda with
          | none => rfl
          | some taking =>
              simp only [Option.map_some, Prod.map_fst, Transfer.call, t.isProjection_map]
              split
              · rfl
              · rfl

/-- The receiver of the call in a projection has a counterpart. -/
theorem whole_of_projection (h : t.Whole i) {call : A.MemberCall} {lambda : A.Id}
    (hProjection : A.projection? i = some (call, lambda)) : t.Whole call.receiver := by
  unfold projection? at hProjection
  split at hProjection
  · next lambda' hFound =>
      split at hProjection
      · next call' taking hTaking =>
          split at hProjection
          · obtain ⟨rfl, rfl⟩ := Prod.mk.inj (Option.some.inj hProjection)
            simp only [callTaking?, Option.bind_eq_bind, Option.bind_eq_some_iff] at hTaking
            obtain ⟨p, hParent, call'', hCall, found, -, hEq⟩ := hTaking
            obtain ⟨rfl, -⟩ := Prod.mk.inj (Option.some.inj hEq)
            exact (t.whole_of_memberCall
              (t.kept_parent (t.kept_of_lambdaParameter h hFound) hParent) hCall).1
          · simp at hProjection
      · simp at hProjection
  · simp at hProjection

/-! ## Guards -/

theorem isBoundary_of_map (hi : t.kept i = true) (h : @IsBoundary B (t.map i)) :
    @IsBoundary A i := by
  unfold IsBoundary at h ⊢
  rw [t.node_map hi] at h
  cases hNode : A.tree.node i with
  | lambda params body isAsync =>
      rw [hNode, Node.map_lambda] at h
      show A.config.analysis.crossLambdaBoundaries = false
      have hOff : B.config.analysis.crossLambdaBoundaries = false := h
      by_contra hOn
      have hBoth := t.trusts.crossLambdaBoundaries (Bool.eq_true_of_not_eq_false hOn)
      simp [hOff] at hBoth
  | _ => simp_all

theorem inReach_map {construct : A.Id} (hi : t.kept i = true) (h : InReach i construct) :
    InReach (t.map i) (t.map construct) := by
  have hConstruct := t.kept_of_mem_ancestors hi h.1
  unfold InReach
  rw [t.ancestors_map hi]
  refine ⟨List.mem_map_of_mem h.1, ?_⟩
  intro boundary hMem hBoundary hWithin
  obtain ⟨b, hb, rfl⟩ := List.mem_map.1 hMem
  have hKept := t.kept_of_mem_ancestors hi hb
  rw [t.isWithin_map hKept hConstruct] at hWithin
  rw [h.2 b hb (t.isBoundary_of_map hKept hBoundary) hWithin]

/-- A callback that is called in one state only is still known to be. -/
theorem isCallback_map {lambda subject : A.Id} {state : State} (hKept : t.kept lambda = true)
    (h : IsCallback lambda subject state) : IsCallback (t.map lambda) (t.map subject) state := by
  obtain ⟨⟨params, body, isAsync, hNode⟩, call, arg, position, hTaking, hState, rfl⟩ := h
  refine ⟨⟨params.map t.map, t.map body, isAsync, ?_⟩, t.call call, arg.map t.map, position, ?_, ?_,
    rfl⟩
  · rw [t.node_map hKept, hNode, Node.map_lambda]
  · rw [t.callTaking_map hKept, hTaking]
    rfl
  · exact t.trusts.callbackState t.accepted hState

variable {site : A.UseSite} (hSite : t.kept site.node = true) (hReceiver : t.Whole site.receiver)
include hSite hReceiver

theorem safelyAccessed_map {construct : A.Id} (hKept : t.kept construct = true)
    (h : SafelyAccessed site construct) : SafelyAccessed (t.site site) (t.map construct) := by
  obtain ⟨receiver, rest, hNode, hWithin, hSame⟩ := h
  have hInner : (A.tree.node construct).kind.isInner = true := by rw [hNode]; rfl
  have hWhole := Embedding.whole_of_kept hKept hInner
  have hFirst : t.Whole receiver := hWhole.part (by simp [hNode, Node.children])
  have hRest : t.Whole rest := hWhole.part (by simp [hNode, Node.children])
  refine ⟨t.map receiver, t.map rest, ?_, ?_, ?_⟩
  · rw [t.node_map hKept, hNode, Node.map_conditionalAccess]
  · exact (t.isWithin_map hSite hRest.kept).trans hWithin
  · rcases hSame with rfl | hSame
    · exact .inl rfl
    · exact .inr ((t.sameLocation_map hFirst hReceiver).trans hSame)

omit hSite in
theorem guardedByCall_map {construct : A.Id} {required : State} (hKept : t.kept construct = true)
    (h : GuardedByCall site required construct) :
    GuardedByCall (t.site site) required (t.map construct) := by
  obtain ⟨subject, hCallback, hSame⟩ := h
  have hSubject : t.Whole subject := by
    obtain ⟨-, call, arg, position, hTaking, -, rfl⟩ := hCallback
    simp only [callTaking?, Option.bind_eq_bind, Option.bind_eq_some_iff] at hTaking
    obtain ⟨p, hParent, call', hCall, found, -, hEq⟩ := hTaking
    obtain ⟨rfl, -⟩ := Prod.mk.inj (Option.some.inj hEq)
    exact (t.whole_of_memberCall (t.kept_parent hKept hParent) hCall).1
  exact ⟨t.map subject, t.isCallback_map hKept hCallback,
    (t.sameLocation_map hSubject hReceiver).trans hSame⟩

theorem guardedByBranch_map {construct : A.Id} {required : State}
    (hKept : t.kept construct = true) (h : GuardedByBranch site required construct) :
    GuardedByBranch (t.site site) required (t.map construct) := by
  obtain ⟨condition, branch, subject, ⟨hCondition, hUnder⟩, hEstablishes, hSame⟩ := h
  obtain ⟨hPart, hInner⟩ := Embedding.mem_children_of_condition hCondition
  have hWhole : t.Whole condition := (Embedding.whole_of_kept hKept hInner).part hPart
  refine ⟨t.map condition, branch, t.map subject, ⟨?_, ?_⟩, t.establishes_map hWhole hEstablishes, ?_⟩
  · rw [Embedding.condition_map hKept, hCondition, Option.map_some]
  · exact (Embedding.isUnder_map hSite hKept branch).trans hUnder
  · exact (t.sameLocation_map (hWhole.of_isWithin hEstablishes.isWithin) hReceiver).trans hSame

theorem guards_map {construct : A.Id} {required : State} (hKept : t.kept construct = true)
    (h : Guards site required construct) : Guards (t.site site) required (t.map construct) := by
  rcases h with hSafe | hCall | hBranch
  · exact .inl (t.safelyAccessed_map hSite hReceiver hKept hSafe)
  · exact .inr (.inl (t.guardedByCall_map hReceiver hKept hCall))
  · exact .inr (.inr (t.guardedByBranch_map hSite hReceiver hKept hBranch))

/-- **What is guarded stays so:** trusting more takes no guard away. -/
theorem isGuarded_map (h : A.answer (isGuardedForAccess site) = true) :
    B.answer (isGuardedForAccess (t.site site)) = true := by
  unfold isGuardedForAccess at h ⊢
  rw [isGuarded_iff] at h ⊢
  obtain ⟨required, hImplied, construct, hReach, hGuards⟩ := h
  exact ⟨required, hImplied, t.map construct, t.inReach_map hSite hReach,
    t.guards_map hSite hReceiver (t.kept_of_mem_ancestors hSite hReach.1) hGuards⟩

omit hSite hReceiver

/-! ## Factories and filters -/

/-- A factory that is known not to fail is still known. -/
theorem isFactoryCall_map (h : t.Whole i) (hFactory : A.isFactoryCall i = true) :
    B.isFactoryCall (t.map i) = true := by
  unfold isFactoryCall at hFactory ⊢
  rw [Embedding.stripParens_map h, t.memberCall_map h.stripParens.kept]
  cases hCall : A.memberCall? (A.tree.stripParens i) with
  | none => simp [hCall] at hFactory
  | some call =>
      rw [hCall] at hFactory
      exact Config.contains_of_subset t.trusts.nonThrowingFactories hFactory

end Transfer

/-- A predicate holds only for elements in a state if it is a lambda with an expression for its body
that establishes the state of its first parameter. -/
theorem provesElements_iff {ctx : Context} {i : ctx.Id} {state : State} :
    ctx.answer (ctx.provesElements i state) = true ↔
      ∃ param params body isAsync subject,
        ctx.tree.node i = .lambda (param :: params) body isAsync ∧
        (ctx.tree.node body).isStatement = false ∧ Establishes body true subject state ∧
        ctx.oracle.sameSymbol (ctx.tree.stripParens subject) param = true := by
  unfold provesElements
  split
  · next param params body isAsync hNode =>
      by_cases hStatement : (ctx.tree.node body).isStatement = true
      · rw [if_pos hStatement]
        constructor
        · intro h
          simp at h
        · rintro ⟨_, _, _, _, _, hEq, hExpression, _⟩
          obtain ⟨-, rfl, -⟩ := Node.lambda.inj (hNode.symm.trans hEq)
          simp [hStatement] at hExpression
      · rw [if_neg hStatement]
        simp only [facts, Inquiry.answer_bind, Inquiry.answer_pure, List.any_eq_true,
          Bool.and_eq_true, decide_eq_true_eq]
        constructor
        · rintro ⟨fact, hFact, ⟨hBranch, hState⟩, hSame⟩
          refine ⟨param, params, body, isAsync, fact.subject, hNode, by simpa using hStatement,
            proves_shape_iff.1 ⟨fact, hFact, ?_, rfl, hState⟩, hSame⟩
          rw [hBranch]
          rfl
        · rintro ⟨_, _, _, _, subject, hEq, -, hEstablishes, hSame⟩
          obtain ⟨hParams, rfl, -⟩ := Node.lambda.inj (hNode.symm.trans hEq)
          obtain ⟨rfl, -⟩ := List.cons.inj hParams
          obtain ⟨fact, hFact, hOutcome, rfl, hState⟩ := proves_shape_iff.2 hEstablishes
          refine ⟨fact, hFact, ⟨?_, hState⟩, hSame⟩
          cases hBranch : fact.branch with
          | whenTrue => rfl
          | whenFalse => simp [hBranch, Branch.outcome] at hOutcome
  · next hOther =>
      constructor
      · intro h
        simp at h
      · rintro ⟨param, params, body, isAsync, _, hNode, _⟩
        exact (hOther param params body isAsync hNode).elim

/-- An inquiry about each element of a list, until one is confirmed. -/
theorem answer_anyM {α : Type} (classify : TypeRef → Classification) (f : α → Inquiry Bool)
    (xs : List α) : (xs.anyM f).answer classify = xs.any fun x => (f x).answer classify := by
  induction xs with
  | nil => rfl
  | cons x xs ih =>
      simp only [List.anyM_cons, Inquiry.answer_bind, List.any_cons]
      cases hFirst : (f x).answer classify with
      | true => simp
      | false => simpa using ih

/-- A sequence is filtered by an operator that filters it or by an earlier one, through operators that
keep elements. -/
theorem isFiltered_iff {ctx : Context} {i : ctx.Id} {state : State} :
    ctx.answer (ctx.isFiltered i state) = true ↔
      ∃ call, ctx.memberCall? (ctx.tree.stripParens i) = some call ∧
        (ctx.config.pipeline.isFilter call.method = true ∧
            (∃ arg ∈ call.args, ctx.answer (ctx.provesElements arg.value state) = true) ∨
          (ctx.config.pipeline.isFilter call.method = true ∨
            ctx.config.pipeline.isPassthrough call.method = true) ∧
            ctx.answer (ctx.isFiltered call.receiver state) = true) := by
  rw [isFiltered]
  split
  · next hCall => simp [hCall]
  · next call hCall =>
      simp only [hCall, Option.some.injEq, exists_eq_left']
      by_cases hFilter : ctx.config.pipeline.isFilter call.method = true
      · simp only [hFilter, if_true, Inquiry.answer_bind, answer_anyM, true_and, true_or]
        cases hAny : call.args.any fun arg => ctx.answer (ctx.provesElements arg.value state) with
        | true => simp_all
        | false => simp_all
      · by_cases hPass : ctx.config.pipeline.isPassthrough call.method = true
        · simp [hFilter, hPass]
        · simp [hFilter, hPass]

namespace Transfer

variable {A B : Context} (t : Transfer A B) {i : A.Id}

theorem provesElements_map (h : t.Whole i) {state : State}
    (hProves : A.answer (A.provesElements i state) = true) :
    B.answer (B.provesElements (t.map i) state) = true := by
  rw [provesElements_iff] at hProves ⊢
  obtain ⟨param, params, body, isAsync, subject, hNode, hStatement, hEstablishes, hSame⟩ := hProves
  have hBody : t.Whole body := h.part (by simp [hNode, Node.children])
  have hParam : t.Whole param := h.part (by simp [hNode, Node.children])
  have hSubject : t.Whole subject := hBody.of_isWithin hEstablishes.isWithin
  refine ⟨t.map param, params.map t.map, t.map body, isAsync, t.map subject, ?_, ?_,
    t.establishes_map hBody hEstablishes, ?_⟩
  · rw [h.node, hNode, Node.map_lambda, List.map_cons]
  · rw [hBody.node]
    cases hInner : A.tree.node body <;> simp_all [Node.isStatement]
  · rw [Embedding.stripParens_map hSubject,
      t.sameSymbol_map hSubject.stripParens.kept hParam.kept, hSame]

/-- **What is filtered stays so.** -/
theorem isFiltered_map (h : t.Whole i) {state : State}
    (hFiltered : A.answer (A.isFiltered i state) = true) :
    B.answer (B.isFiltered (t.map i) state) = true := by
  induction hHeight : A.tree.height i using Nat.strongRecOn generalizing i with
  | ind height ih =>
      obtain ⟨call, hCall, hCases⟩ := isFiltered_iff.1 hFiltered
      obtain ⟨hReceiver, hArgs⟩ := t.whole_of_memberCall h.stripParens.kept hCall
      have hLower : A.tree.height call.receiver < height := by
        have hLt := height_receiver_lt hCall
        have hLe := Arena.height_stripParens_le i
        omega
      have hFilter : A.config.pipeline.isFilter call.method = true →
          B.config.pipeline.isFilter call.method = true :=
        Config.contains_of_subset t.trusts.filterMethods
      refine isFiltered_iff.2 ⟨t.call call, ?_, ?_⟩
      · rw [Embedding.stripParens_map h, t.memberCall_map h.stripParens.kept, hCall,
          Option.map_some]
      · rcases hCases with ⟨hHere, arg, hArg, hProves⟩ | ⟨hOperator, hEarlier⟩
        · exact .inl ⟨hFilter hHere, arg.map t.map, List.mem_map_of_mem hArg,
            t.provesElements_map (hArgs arg hArg) hProves⟩
        · refine .inr ⟨?_, ih _ hLower hReceiver hEarlier rfl⟩
          rcases hOperator with hHere | hPass
          · exact .inl (hFilter hHere)
          · exact .inr (Config.contains_of_subset t.trusts.passthroughMethods hPass)

end Transfer

end StateGuard.Context
