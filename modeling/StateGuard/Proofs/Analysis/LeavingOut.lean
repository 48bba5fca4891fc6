import StateGuard.Proofs.Analysis.Trust

/-!
# Leaving rules out

No rule asks which rules are left out.  So under two configurations with the same tables of what
protects a read, a read and its counterpart are guarded, exempt and filtered alike, and each rule
finds the same at both.

## Main results

* `Transfer.isGuarded_map_eq`, `Transfer.isFiltered_map_eq`: what protects a read.
* `Transfer.inspect_map_iff`, `inspect_keepingRules`: what a rule finds.
-/

namespace StateGuard

namespace Config

/-- Configurations with the same tables of what protects a read. -/
structure ProtectsLike (c d : Config) : Prop where
  nonThrowingFactories : d.nonThrowingFactories = c.nonThrowingFactories
  callContexts : d.callContexts = c.callContexts
  pipeline : d.pipeline = c.pipeline
  crossLambdaBoundaries : d.analysis.crossLambdaBoundaries = c.analysis.crossLambdaBoundaries

/-- The same configuration, but with every rule. -/
def keepingRules (config : Config) : Config := { config with disabledRules := [] }

theorem trustsMore_keepingRules (config : Config) : config.keepingRules.TrustsMore config :=
  { TrustsMore.refl config with disabledRules := List.nil_subset _ }

end Config

namespace Context

open Arena

namespace Transfer

variable {A B : Context} (t : Transfer A B) {i : A.Id}
variable (hLike : A.config.ProtectsLike B.config)
include hLike

/-! ## Guards -/

theorem inReach_of_map {construct : A.Id} (hi : t.kept i = true)
    (hConstruct : t.kept construct = true) (h : InReach (t.map i) (t.map construct)) :
    InReach i construct := by
  obtain ⟨hMem, hBoundary⟩ := h
  rw [t.ancestors_map hi, List.mem_map] at hMem
  obtain ⟨a, ha, hEq⟩ := hMem
  obtain rfl := (t.map_eq_iff (t.kept_of_mem_ancestors hi ha) hConstruct).1 hEq
  refine ⟨ha, fun b hb hHere hWithin => ?_⟩
  have hKept := t.kept_of_mem_ancestors hi hb
  have hThere : IsBoundary (t.map b) := by
    unfold IsBoundary at hHere ⊢
    rw [t.node_map hKept]
    cases hNode : A.tree.node b with
    | lambda params body isAsync =>
        rw [hNode] at hHere
        rw [Node.map_lambda]
        exact hLike.crossLambdaBoundaries.trans hHere
    | _ => simp_all
  have hEq := hBoundary (t.map b) (t.ancestors_map hi ▸ List.mem_map_of_mem hb) hThere
    ((t.isWithin_map hKept hConstruct).trans hWithin)
  exact (t.map_eq_iff hKept hConstruct).1 hEq

theorem isCallback_of_map {lambda : A.Id} {subject' : B.Id} {state : State}
    (hKept : t.kept lambda = true) (h : IsCallback (t.map lambda) subject' state) :
    ∃ subject, subject' = t.map subject ∧ IsCallback lambda subject state := by
  obtain ⟨⟨params', body', isAsync, hNode'⟩, call', arg', position, hTaking', hState, rfl⟩ := h
  rw [t.callTaking_map hKept] at hTaking'
  obtain ⟨⟨call, arg, position'⟩, hTaking, hEq⟩ := Option.map_eq_some_iff.1 hTaking'
  simp only [Prod.map, id, Prod.mk.injEq] at hEq
  obtain ⟨rfl, rfl, rfl⟩ := hEq
  refine ⟨call.receiver, rfl, ?_, call, arg, position', hTaking, hLike.callContexts ▸ hState, rfl⟩
  rw [t.node_map hKept] at hNode'
  cases hNode : A.tree.node lambda with
  | lambda params body isAsync => exact ⟨params, body, isAsync, rfl⟩
  | _ => simp [hNode] at hNode'

omit hLike in
theorem establishes_of_map {s' : B.Id} {b : Bool} {P : State} (h : t.Whole i)
    (hEstablishes : Establishes (t.map i) b s' P) :
    ∃ s, s' = t.map s ∧ Establishes i b s P := by
  rw [← proves_shape_iff, t.shape_map h] at hEstablishes
  obtain ⟨fact', hMem, hOutcome, rfl, hState⟩ := hEstablishes
  rw [Shape.facts_map] at hMem
  obtain ⟨fact, hFact, rfl⟩ := List.mem_map.1 hMem
  exact ⟨fact.subject, rfl, proves_shape_iff.1 ⟨fact, hFact, hOutcome, rfl, hState⟩⟩

variable {site : A.UseSite} (hSite : t.kept site.node = true) (hReceiver : t.Whole site.receiver)
include hSite hReceiver

omit hLike in
theorem safelyAccessed_of_map {construct : A.Id} (hKept : t.kept construct = true)
    (h : SafelyAccessed (t.site site) (t.map construct)) : SafelyAccessed site construct := by
  obtain ⟨receiver', rest', hNode', hWithin, hSame⟩ := h
  rw [t.node_map hKept] at hNode'
  cases hNode : A.tree.node construct with
  | conditionalAccess receiver rest =>
      have hInner : (A.tree.node construct).kind.isInner = true := by rw [hNode]; rfl
      have hWhole := Embedding.whole_of_kept hKept hInner
      have hFirst : t.Whole receiver := hWhole.part (by simp [hNode, Node.children])
      have hRest : t.Whole rest := hWhole.part (by simp [hNode, Node.children])
      rw [hNode, Node.map_conditionalAccess] at hNode'
      obtain ⟨rfl, rfl⟩ := Node.conditionalAccess.inj hNode'
      refine ⟨receiver, rest, hNode, (t.isWithin_map hSite hRest.kept).symm.trans hWithin, ?_⟩
      rcases hSame with hEq | hSame
      · exact .inl ((t.map_eq_iff hFirst.kept hReceiver.kept).1 hEq)
      · exact .inr ((t.sameLocation_map hFirst hReceiver).symm.trans hSame)
  | _ => simp [hNode] at hNode'

theorem guards_of_map {construct : A.Id} {required : State} (hKept : t.kept construct = true)
    (h : Guards (t.site site) required (t.map construct)) : Guards site required construct := by
  rcases h with hSafe | ⟨subject', hCallback', hSame⟩ | ⟨condition', branch, subject',
    ⟨hCondition', hUnder⟩, hEstablishes', hSame⟩
  · exact .inl (t.safelyAccessed_of_map hSite hReceiver hKept hSafe)
  · obtain ⟨subject, rfl, hCallback⟩ := t.isCallback_of_map hLike hKept hCallback'
    have hSubject : t.Whole subject := by
      obtain ⟨-, call, arg, position, hTaking, -, rfl⟩ := hCallback
      simp only [callTaking?, Option.bind_eq_bind, Option.bind_eq_some_iff] at hTaking
      obtain ⟨p, hParent, call', hCall, found, -, hEq⟩ := hTaking
      obtain ⟨rfl, -⟩ := Prod.mk.inj (Option.some.inj hEq)
      exact (t.whole_of_memberCall (t.kept_parent hKept hParent) hCall).1
    exact .inr (.inl ⟨subject, hCallback, (t.sameLocation_map hSubject hReceiver).symm.trans hSame⟩)
  · rw [Embedding.condition_map hKept] at hCondition'
    obtain ⟨condition, hCondition, rfl⟩ := Option.map_eq_some_iff.1 hCondition'
    obtain ⟨hPart, hInner⟩ := Embedding.mem_children_of_condition hCondition
    have hWhole : t.Whole condition := (Embedding.whole_of_kept hKept hInner).part hPart
    obtain ⟨subject, rfl, hEstablishes⟩ := t.establishes_of_map hWhole hEstablishes'
    exact .inr (.inr ⟨condition, branch, subject,
      ⟨hCondition, (Embedding.isUnder_map hSite hKept branch).symm.trans hUnder⟩, hEstablishes,
      (t.sameLocation_map (hWhole.of_isWithin hEstablishes.isWithin) hReceiver).symm.trans hSame⟩)

/-- **A read and its counterpart are guarded alike.** -/
theorem isGuarded_map_eq : B.answer (isGuardedForAccess (t.site site)) =
    A.answer (isGuardedForAccess site) := by
  rw [Bool.eq_iff_iff]
  refine ⟨fun h => ?_, t.isGuarded_map hSite hReceiver⟩
  unfold isGuardedForAccess at h ⊢
  rw [isGuarded_iff] at h ⊢
  obtain ⟨required, hImplied, construct', hReach', hGuards⟩ := h
  have hMem := hReach'.1
  rw [show (t.site site).node = t.map site.node from rfl, t.ancestors_map hSite] at hMem
  obtain ⟨construct, hConstruct, rfl⟩ := List.mem_map.1 hMem
  have hKept := t.kept_of_mem_ancestors hSite hConstruct
  exact ⟨required, hImplied, construct, t.inReach_of_map hLike hSite hKept hReach',
    t.guards_of_map hLike hSite hReceiver hKept hGuards⟩

omit hSite hReceiver

/-! ## Factories and filters -/

theorem isExempt_map_eq (h : t.Whole site.receiver) :
    B.isExempt (t.site site) = A.isExempt site := by
  have hFactory : B.isFactoryCall (t.map site.receiver) = A.isFactoryCall site.receiver := by
    unfold isFactoryCall Config.isNonThrowingFactory
    rw [Embedding.stripParens_map h, t.memberCall_map h.stripParens.kept,
      hLike.nonThrowingFactories]
    cases A.memberCall? (A.tree.stripParens site.receiver) <;> rfl
  have hProjection : (B.projection? (t.map site.receiver)).isSome =
      (A.projection? site.receiver).isSome := by
    rw [t.projection_map h, Option.isSome_map]
  show (B.isFactoryCall (t.map site.receiver) || (B.projection? (t.map site.receiver)).isSome) = _
  rw [hFactory, hProjection]
  rfl

omit hLike in
theorem provesElements_map_eq (h : t.Whole i) (state : State) :
    B.answer (B.provesElements (t.map i) state) = A.answer (A.provesElements i state) := by
  rw [Bool.eq_iff_iff]
  refine ⟨fun hProves => ?_, t.provesElements_map h⟩
  rw [provesElements_iff] at hProves ⊢
  obtain ⟨param', params', body', isAsync', subject', hNode', hStatement, hEstablishes', hSame⟩ :=
    hProves
  rw [h.node] at hNode'
  cases hNode : A.tree.node i with
  | lambda params body isAsync =>
      cases params with
      | nil => simp [hNode] at hNode'
      | cons param params =>
          rw [hNode, Node.map_lambda, List.map_cons] at hNode'
          obtain ⟨hParams, rfl, rfl⟩ := Node.lambda.inj hNode'
          obtain ⟨rfl, rfl⟩ := List.cons.inj hParams
          have hBody : t.Whole body := h.part (by simp [hNode, Node.children])
          have hParam : t.Whole param := h.part (by simp [hNode, Node.children])
          obtain ⟨subject, rfl, hEstablishes⟩ := t.establishes_of_map hBody hEstablishes'
          have hSubject : t.Whole subject := hBody.of_isWithin hEstablishes.isWithin
          refine ⟨param, params, body, isAsync, subject, rfl, ?_, hEstablishes, ?_⟩
          · rw [hBody.node] at hStatement
            cases hInner : A.tree.node body <;> simp_all [Node.isStatement]
          · rw [← t.sameSymbol_map hSubject.stripParens.kept hParam.kept,
              ← Embedding.stripParens_map hSubject, hSame]
  | _ => simp [hNode] at hNode'

/-- **A sequence and its counterpart are filtered alike.** -/
theorem isFiltered_map_eq (h : t.Whole i) (state : State) :
    B.answer (B.isFiltered (t.map i) state) = A.answer (A.isFiltered i state) := by
  rw [Bool.eq_iff_iff]
  refine ⟨fun hFiltered => ?_, t.isFiltered_map h⟩
  induction hHeight : A.tree.height i using Nat.strongRecOn generalizing i with
  | ind height ih =>
      obtain ⟨call', hCall', hCases⟩ := isFiltered_iff.1 hFiltered
      rw [Embedding.stripParens_map h, t.memberCall_map h.stripParens.kept] at hCall'
      obtain ⟨call, hCall, rfl⟩ := Option.map_eq_some_iff.1 hCall'
      obtain ⟨hReceiver, hArgs⟩ := t.whole_of_memberCall h.stripParens.kept hCall
      have hLower : A.tree.height call.receiver < height := by
        have hLt := height_receiver_lt hCall
        have hLe := Arena.height_stripParens_le i
        omega
      rw [hLike.pipeline] at hCases
      refine isFiltered_iff.2 ⟨call, hCall, ?_⟩
      rcases hCases with ⟨hHere, arg', hArg', hProves⟩ | ⟨hOperator, hEarlier⟩
      · obtain ⟨arg, hArg, rfl⟩ := List.mem_map.1 hArg'
        exact .inl ⟨hHere, arg, hArg,
          (t.provesElements_map_eq (hArgs arg hArg) state).symm.trans hProves⟩
      · exact .inr ⟨hOperator, ih _ hLower hReceiver hEarlier rfl⟩

/-! ## Rules -/

theorem directAccess_map_of_protectsLike (hi : t.kept i = true) {arguments : List String}
    (h : A.answer (A.directAccess? i) = some (A.report .directAccess i arguments)) :
    B.answer (B.directAccess? (t.map i)) = some (B.report .directAccess (t.map i) arguments) := by
  obtain ⟨site, family, hSite, hExempt, hGuarded, hFamily, hReport⟩ := directAccess_eq_some_iff.1 h
  obtain ⟨rfl, hRead, -⟩ := useSite_eq_some_iff.1 hSite
  have hReceiver := t.whole_of_readMember hi hRead
  refine directAccess_eq_some_iff.2 ⟨t.site site, family, ?_,
    (t.isExempt_map_eq hLike hReceiver).trans hExempt,
    (t.isGuarded_map_eq hLike hi hReceiver).trans hGuarded, (t.family_map _).trans hFamily, ?_⟩
  · rw [t.useSite_map hi, hSite]
    rfl
  · rw [show B.tree.render (t.site site).receiver = A.tree.render site.receiver from
      Embedding.render_map hReceiver]
    simp only [report, Diagnostic.mk.injEq] at hReport
    rw [hReport.2.2.2.2]
    rfl

theorem projectionAccess_map_of_protectsLike (hi : t.kept i = true) {arguments : List String}
    (h : A.answer (A.projectionAccess? i) = some (A.report .projection i arguments)) :
    B.answer (B.projectionAccess? (t.map i)) = some (B.report .projection (t.map i) arguments) := by
  obtain ⟨site, call, lambda, family, hSite, hProjection, hGuarded, hFiltered, hFamily, hReport⟩ :=
    projectionAccess_eq_some_iff.1 h
  obtain ⟨rfl, hRead, -⟩ := useSite_eq_some_iff.1 hSite
  have hReceiver := t.whole_of_readMember hi hRead
  have hCall := t.whole_of_projection hReceiver hProjection
  refine projectionAccess_eq_some_iff.2 ⟨t.site site, t.call call, t.map lambda, family, ?_, ?_,
    (t.isGuarded_map_eq hLike hi hReceiver).trans hGuarded,
    (t.isFiltered_map_eq hLike hCall _).trans hFiltered, (t.family_map _).trans hFamily, ?_⟩
  · rw [t.useSite_map hi, hSite]
    rfl
  · show B.projection? (t.map site.receiver) = _
    rw [t.projection_map hReceiver, hProjection]
    rfl
  · rw [show B.tree.render (t.site site).receiver = A.tree.render site.receiver from
      Embedding.render_map hReceiver]
    simp only [report, Diagnostic.mk.injEq] at hReport
    rw [hReport.2.2.2.2]
    rfl

/-- **A rule finds the same at a node and at its counterpart.** -/
theorem inspect_map_iff {rule : Rule} (hi : t.kept i = true)
    (hKind : rule.inspects (A.tree.node i).kind = true) {arguments : List String} :
    B.answer (rule.inspect B (t.map i)) = some (B.report rule (t.map i) arguments) ↔
      A.answer (rule.inspect A i) = some (A.report rule i arguments) := by
  constructor
  · intro h
    obtain ⟨arguments', hReport, hHere⟩ := t.inspect_map hi hKind h
    simp only [report, Diagnostic.mk.injEq] at hReport
    rw [hReport.2.2.2.2]
    exact hHere
  · intro h
    have hWhole : t.Whole i := Embedding.whole_of_kept hi (isInner_of_inspects hKind)
    cases rule with
    | directAccess => exact t.directAccess_map_of_protectsLike hLike hi h
    | projection => exact t.projectionAccess_map_of_protectsLike hLike hi h
    | ternary =>
        show B.answer (B.ternary? (t.map i)) = _
        rw [t.ternary_map hWhole, show A.answer (A.ternary? i) = _ from h]
        rfl
    | nullComparison =>
        show B.answer (B.nullComparison? (t.map i)) = _
        rw [t.nullComparison_map hWhole, show A.answer (A.nullComparison? i) = _ from h]
        rfl

end Transfer

/-! ## A unit and the same rules -/

variable {unit : SourceUnit} {config : Config} {rule : Rule} {d : Diagnostic}

/-- **What a rule finds does not depend on the rules left out.** -/
theorem inspect_keepingRules (h : config.error? = none) {i : unit.tree.Id}
    (hKind : rule.inspects (unit.tree.node i).kind = true) :
    (ofUnit unit config).answer (rule.inspect (ofUnit unit config) i) = some d ↔
      (ofUnit unit config.keepingRules).answer
        (rule.inspect (ofUnit unit config.keepingRules) i) = some d := by
  let t := Transfer.ofTrust unit config.trustsMore_keepingRules h
  have hIff : ∀ {arguments},
      (ofUnit unit config).answer (rule.inspect (ofUnit unit config) i) =
          some ((ofUnit unit config).report rule i arguments) ↔
        (ofUnit unit config.keepingRules).answer
          (rule.inspect (ofUnit unit config.keepingRules) i) =
            some ((ofUnit unit config.keepingRules).report rule i arguments) :=
    t.inspect_map_iff ⟨rfl, rfl, rfl, rfl⟩ rfl hKind
  constructor
  · intro hFound
    obtain ⟨arguments, rfl⟩ := exists_report_of_inspect hFound
    exact hIff.1 hFound
  · intro hFound
    obtain ⟨arguments, rfl⟩ := exists_report_of_inspect hFound
    exact hIff.2 hFound

end Context

end StateGuard
