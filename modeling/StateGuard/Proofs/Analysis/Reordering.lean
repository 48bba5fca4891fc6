import StateGuard.Proofs.Analysis.Ordering
import StateGuard.Proofs.Config.Reordering
import StateGuard.Proofs.Guard.Protection

/-!
# The order of a configuration has no meaning

A rule asks the configuration for the family of a type, for the role of a member and for the kind of a
method.  Under a configuration that agrees with the first but has its families in other places, each of
these questions has the same answer, up to the place of the family; and a place is only ever used to
look the family up again.  So every rule finds the same at every node.

## Main results

* `Context.shape_under`: a condition has the same shape.
* `Context.isGuardedForAccess_under`, `Context.isFiltered_under`: what protects a read.
* `Context.inspect_under`: a rule finds the same.
* `Config.order_has_no_meaning`: an accepted configuration with its lists in other orders.
-/

namespace StateGuard

namespace Context

/-- The same unit under another configuration. -/
abbrev under (ctx : Context) (config : Config) : Context := ⟨ctx.toSourceUnit, config⟩

variable {A : Context} {d : Config} {place : Nat → Nat}

/-- The same call under another configuration. -/
def MemberCall.under (call : A.MemberCall) (d : Config) : (A.under d).MemberCall :=
  ⟨call.invocation, call.receiver, call.method, call.args⟩

/-- The same read under another configuration, with the family in its place. -/
def UseSite.under (site : A.UseSite) (d : Config) (place : Nat → Nat) : (A.under d).UseSite :=
  ⟨site.node, site.member, site.receiver, place site.family, site.required⟩

/-! ## Calls -/

theorem memberCall?_under (i : A.Id) :
    (A.under d).memberCall? i = (A.memberCall? i).map (·.under d) := by
  unfold memberCall?
  dsimp only
  cases A.tree.node i with
  | invocation callee args =>
      dsimp only
      cases A.tree.node (A.tree.stripParens callee) <;> rfl
  | _ => rfl

theorem callTaking?_under (lambda : A.Id) : (A.under d).callTaking? lambda =
    (A.callTaking? lambda).map fun found => (found.1.under d, found.2) := by
  unfold callTaking?
  cases hParent : A.tree.parent lambda with
  | none => simp
  | some p =>
      cases hCall : A.memberCall? p with
      | none => simp [memberCall?_under, hCall]
      | some call =>
          simp only [memberCall?_under, hCall, Option.bind_eq_bind, Option.bind_some,
            Option.map_some]
          show (call.args.zipIdx.find? _).bind _ = Option.map _ ((call.args.zipIdx.find? _).bind _)
          generalize call.args.zipIdx.find? _ = arg?
          cases arg? <;> rfl

/-! ## What does not ask the configuration

These read the tree and the oracle only.  The two sides still match on nodes in two contexts, so they
become the same only when the form of the node is known. -/

theorem memberRead?_under (i : A.Id) : (A.under d).memberRead? i = A.memberRead? i := by
  unfold memberRead?
  dsimp only
  cases A.tree.node (A.tree.stripParens i) with
  | conditionalAccess receiver rest =>
      dsimp only
      cases A.tree.node rest <;> rfl
  | _ => rfl

theorem boolLiteral?_under (i : A.Id) : (A.under d).boolLiteral? i = A.boolLiteral? i := by
  unfold boolLiteral?
  dsimp only
  cases A.tree.node (A.tree.stripParens i) with
  | literal value => cases value <;> rfl
  | _ => rfl

theorem isOutVariable_under (i : A.Id) : (A.under d).isOutVariable i = A.isOutVariable i := by
  unfold isOutVariable
  dsimp only
  cases A.tree.node i <;> rfl

theorem bindingReceiver?_under (i : A.Id) :
    (A.under d).bindingReceiver? i = A.bindingReceiver? i := by
  unfold bindingReceiver?
  refine congrArg (A.tree.ancestors i).findSome? (funext fun ancestor => ?_)
  dsimp only
  cases A.tree.node ancestor <;> rfl

theorem readMember?_under (i : A.Id) : (A.under d).readMember? i = A.readMember? i := by
  unfold readMember?
  rw [bindingReceiver?_under]
  dsimp only
  cases A.tree.node i <;> rfl

theorem lambdaParameter?_under (i : A.Id) :
    (A.under d).lambdaParameter? i = A.lambdaParameter? i := by
  unfold lambdaParameter?
  dsimp only
  cases A.tree.node (A.tree.stripParens i) with
  | identifier name =>
      refine congrArg (A.tree.ancestors (A.tree.stripParens i)).findSome?
        (funext fun ancestor => ?_)
      cases A.tree.node ancestor <;> rfl
  | _ => rfl

theorem isNull_under (i : A.Id) : (A.under d).isNull i = A.isNull i := by
  unfold isNull
  dsimp only
  cases A.tree.node (A.tree.stripParens i) with
  | literal value => cases value <;> rfl
  | _ => rfl

theorem otherThanNull?_under (left right : A.Id) :
    (A.under d).otherThanNull? left right = A.otherThanNull? left right := by
  unfold otherThanNull?
  rw [isNull_under left, isNull_under right]

theorem nullTest?_under (i : A.Id) : (A.under d).nullTest? i = A.nullTest? i := by
  unfold nullTest?
  dsimp only
  cases A.tree.node i with
  | binary op left right =>
      cases op with
      | eq => exact congrArg (Option.map _) (otherThanNull?_under left right)
      | notEq => exact congrArg (Option.map _) (otherThanNull?_under left right)
      | _ => rfl
  | isPattern operand pattern => cases pattern <;> rfl
  | _ => rfl

theorem sameLocation_under (a b : A.Id) : (A.under d).sameLocation a b = A.sameLocation a b := rfl

theorem ternaryParts?_under (shape : Shape A.Id) (whenTrue whenFalse : A.Id) :
    (A.under d).ternaryParts? shape whenTrue whenFalse =
      A.ternaryParts? shape whenTrue whenFalse := rfl

variable (h : A.config.AgreesWith d place)
include h

/-! ## Types and roles -/

theorem classify_under (i : A.Id) : (A.under d).answer ((A.under d).classify i) =
    (A.answer (A.classify i)).map place := by
  unfold classify
  dsimp only
  cases A.oracle.typeOf i with
  | none => rfl
  | some type => exact h.classify type

theorem wrapperFamily?_under (i : A.Id) : (A.under d).answer ((A.under d).wrapperFamily? i) =
    (A.answer (A.wrapperFamily? i)).map place := by
  simp only [wrapperFamily?, Inquiry.answer_bind, classify_under h, Classification.wrapper?_map,
    Context.answer]
  cases ((A.classify (A.tree.stripParens i)).answer A.config.classify).wrapper? with
  | some family => rfl
  | none =>
      dsimp only [Option.map_none]
      cases A.tree.node (A.tree.stripParens i) with
      | await operand =>
          simp only [Inquiry.answer_bind, Inquiry.answer_pure, classify_under h,
            Classification.asyncWrapper?_map]
      | _ => rfl

/-! ## Conditions -/

theorem discriminant?_under (i : A.Id) : (A.under d).answer ((A.under d).discriminant? i) =
    A.answer (A.discriminant? i) := by
  unfold discriminant?
  rw [memberRead?_under]
  cases A.memberRead? i with
  | none => rfl
  | some read =>
      simp only [Inquiry.answer_bind, wrapperFamily?_under h, Context.answer]
      cases (A.wrapperFamily? read.1).answer A.config.classify with
      | none => rfl
      | some family =>
          simp only [Option.map_some, h.role]
          cases A.config.role? family read.2 with
          | none => rfl
          | some role => cases role <;> rfl

theorem literalTest_under (i : A.Id) (expected : Bool) :
    (A.under d).answer ((A.under d).literalTest i expected) =
      A.answer (A.literalTest i expected) := by
  simp only [literalTest, Inquiry.answer_bind, discriminant?_under h, Context.answer]
  cases (A.discriminant? i).answer A.config.classify <;> rfl

theorem comparison_under (isEquality : Bool) (left right : A.Id) :
    (A.under d).answer ((A.under d).comparison isEquality left right) =
      A.answer (A.comparison isEquality left right) := by
  unfold comparison
  rw [boolLiteral?_under left, boolLiteral?_under right]
  cases A.boolLiteral? left with
  | none =>
      cases A.boolLiteral? right with
      | none => rfl
      | some value => exact literalTest_under h ..
  | some value =>
      cases A.boolLiteral? right with
      | none => exact literalTest_under h ..
      | some value' => rfl

theorem tryCall_under (i : A.Id) :
    (A.under d).answer ((A.under d).tryCall i) = A.answer (A.tryCall i) := by
  unfold tryCall
  rw [memberCall?_under]
  cases A.memberCall? i with
  | none => rfl
  | some call =>
      simp only [Option.map_some, Inquiry.answer_bind, MemberCall.under, wrapperFamily?_under h,
        Context.answer]
      cases (A.wrapperFamily? call.receiver).answer A.config.classify with
      | none => rfl
      | some family =>
          simp only [Option.map_some, h.role, funext isOutVariable_under]
          cases A.config.role? family call.method with
          | none => rfl
          | some role => cases role <;> rfl

/-- The same conditions read a discriminant. -/
theorem reads_under_iff {i subject : A.Id} {state : State} :
    @Reads (A.under d) i subject state ↔ @Reads A i subject state := by
  rw [← answer_discriminant_iff, ← answer_discriminant_iff, discriminant?_under h]

/-- **A condition has the same shape.** -/
theorem shape_under (i : A.Id) :
    (A.under d).answer ((A.under d).shape i) = A.answer (A.shape i) := by
  induction i using shape.induct with
  | case1 i operand hNode ih => rw [shape_not hNode, @shape_not (A.under d) _ _ hNode, ih]
  | case2 i left right hNode ihLeft ihRight =>
      rw [shape_and hNode, @shape_and (A.under d) _ _ _ hNode, ihLeft, ihRight]
  | case3 i left right hNode ihLeft ihRight =>
      rw [shape_or hNode, @shape_or (A.under d) _ _ _ hNode, ihLeft, ihRight]
  | case4 i left right hNode =>
      rw [shape_eq hNode, @shape_eq (A.under d) _ _ _ hNode, comparison_under h]
  | case5 i left right hNode =>
      rw [shape_notEq hNode, @shape_notEq (A.under d) _ _ _ hNode, comparison_under h]
  | case6 i operand value hNode =>
      rw [shape_test hNode, @shape_test (A.under d) _ _ _ hNode, literalTest_under h]
  | case7 i callee args hNode =>
      rw [shape_call hNode, @shape_call (A.under d) _ _ _ hNode]
      exact tryCall_under h _
  | case8 i hNot hAnd hOr hEq hNotEq hTest hCall =>
      rcases answer_shape_other hNot hAnd hOr hEq hNotEq hTest hCall with
        hShape | ⟨subject, state, hReads, hShape⟩
      · rcases @answer_shape_other (A.under d) _ hNot hAnd hOr hEq hNotEq hTest hCall with
          hShape' | ⟨subject, state, hReads, hShape'⟩
        · rw [hShape, hShape']
        · rw [hShape', answer_shape_of_reads ((reads_under_iff h).1 hReads).of_stripParens]
      · rw [hShape, answer_shape_of_reads ((reads_under_iff h).2 hReads).of_stripParens]

theorem facts_under (condition : A.Id) :
    (A.under d).answer ((A.under d).facts condition) = A.answer (A.facts condition) := by
  simp only [facts, Inquiry.answer_bind, Inquiry.answer_pure, shape_under h]

theorem factsAbout_under (condition subject : A.Id) :
    (A.under d).answer ((A.under d).factsAbout condition subject) =
      A.answer (A.factsAbout condition subject) := by
  simp only [factsAbout, Inquiry.answer_bind, Inquiry.answer_pure, facts_under h]
  rfl

/-! ## Guards around a read -/

variable (site : A.UseSite) (required : State)

theorem branchProves_under (construct : A.Id) :
    (A.under d).answer (branchProves (site.under d place) required construct) =
      A.answer (branchProves site required construct) := by
  unfold branchProves
  dsimp only
  cases A.tree.condition? construct with
  | none => rfl
  | some condition =>
      simp only [Inquiry.answer_bind, Inquiry.answer_pure, UseSite.under, factsAbout_under h]

theorem lambdaVerdict_under (lambda : A.Id) :
    lambdaVerdict (site.under d place) required lambda =
      (lambdaVerdict site required lambda : Verdict) := by
  unfold lambdaVerdict
  rw [callTaking?_under, h.crossLambdaBoundaries]
  cases A.callTaking? lambda with
  | none => rfl
  | some found =>
      simp only [Option.map_some, h.callbackState]
      rfl

theorem verdict_under (child construct : A.Id) :
    (A.under d).answer (verdict (site.under d place) required child construct) =
      A.answer (verdict site required child construct) := by
  have hBranch := branchProves_under h site required construct
  have hLambda := lambdaVerdict_under h site required construct
  unfold verdict
  dsimp only
  cases A.tree.node construct with
  | conditionalAccess receiver rest => rfl
  | lambda params body isBlock => simp only [Inquiry.answer_pure, hLambda]
  | method _ _ _ => rfl
  | compilationUnit _ => rfl
  | _ => simp only [Inquiry.answer_bind, Inquiry.answer_pure, hBranch]

theorem ascend_under (child : A.Id) (constructs : List A.Id) :
    (A.under d).answer (ascend (site.under d place) required child constructs) =
      A.answer (ascend site required child constructs) := by
  induction constructs generalizing child with
  | nil => rfl
  | cons construct rest ih =>
      simp only [ascend, Inquiry.answer_bind, verdict_under h, Context.answer]
      cases (verdict site required child construct).answer A.config.classify with
      | guarded => rfl
      | unguarded => rfl
      | undecided => exact ih construct

theorem isGuardedForAccess_under :
    (A.under d).answer (isGuardedForAccess (site.under d place)) =
      A.answer (isGuardedForAccess site) :=
  ascend_under h site site.required site.node (A.tree.ancestors site.node)

/-! ## Reads -/

theorem useSite?_under (i : A.Id) : (A.under d).answer ((A.under d).useSite? i) =
    (A.answer (A.useSite? i)).map (·.under d place) := by
  unfold useSite?
  rw [readMember?_under]
  cases A.readMember? i with
  | none => rfl
  | some read =>
      simp only [Inquiry.answer_bind, wrapperFamily?_under h, Context.answer]
      cases (A.wrapperFamily? read.1).answer A.config.classify with
      | none => rfl
      | some family =>
          simp only [Option.map_some, h.role]
          cases A.config.role? family read.2 with
          | none => rfl
          | some role => cases role <;> rfl

theorem projection?_under (i : A.Id) : (A.under d).projection? i =
    (A.projection? i).map fun found => (found.1.under d, found.2) := by
  unfold projection?
  rw [lambdaParameter?_under]
  cases A.lambdaParameter? i with
  | none => rfl
  | some found =>
      obtain ⟨lambda, position⟩ := found
      cases position with
      | succ position => rfl
      | zero =>
          simp only [callTaking?_under, h.isProjection]
          cases A.callTaking? lambda with
          | none => rfl
          | some taking =>
              dsimp only [Option.map_some, MemberCall.under]
              split <;> rfl

theorem isFactoryCall_under (i : A.Id) : (A.under d).isFactoryCall i = A.isFactoryCall i := by
  unfold isFactoryCall
  rw [memberCall?_under]
  dsimp only
  rw [h.isNonThrowingFactory]
  cases A.memberCall? (A.tree.stripParens i) <;> rfl

theorem isExempt_under : (A.under d).isExempt (site.under d place) = A.isExempt site := by
  unfold isExempt
  rw [show (site.under d place).receiver = site.receiver from rfl, isFactoryCall_under h,
    projection?_under h, Option.isSome_map]

/-! ## Filters -/

theorem provesElements_under (i : A.Id) (state : State) :
    (A.under d).answer ((A.under d).provesElements i state) =
      A.answer (A.provesElements i state) := by
  unfold provesElements
  dsimp only
  cases A.tree.node i with
  | lambda params body isBlock =>
      cases params with
      | nil => rfl
      | cons param rest =>
          dsimp only
          split
          · rfl
          · simp only [Inquiry.answer_bind, Inquiry.answer_pure, facts_under h]
  | _ => rfl

/-- **The elements of a sequence have passed the same filters.** -/
theorem isFiltered_under (i : A.Id) (state : State) :
    (A.under d).answer ((A.under d).isFiltered i state) = A.answer (A.isFiltered i state) := by
  rw [Bool.eq_iff_iff]
  induction hHeight : A.tree.height i using Nat.strongRecOn generalizing i with
  | ind height ih =>
      rw [isFiltered_iff, @isFiltered_iff A, memberCall?_under]
      subst hHeight
      cases hCall : A.memberCall? (A.tree.stripParens i) with
      | none => simp
      | some call =>
          have hBelow : A.tree.height call.receiver < A.tree.height i :=
            Nat.lt_of_lt_of_le (height_receiver_lt hCall) (Arena.height_stripParens_le i)
          have hReceiver := ih _ hBelow call.receiver rfl
          simp only [Option.map_some, Option.some.injEq, exists_eq_left', MemberCall.under,
            h.isFilter, h.isPassthrough, provesElements_under h, hReceiver]

/-! ## Rules -/

theorem directAccess?_under (i : A.Id) :
    (A.under d).answer ((A.under d).directAccess? i) = A.answer (A.directAccess? i) := by
  simp only [directAccess?, Inquiry.answer_bind, useSite?_under h, Context.answer]
  cases (A.useSite? i).answer A.config.classify with
  | none => rfl
  | some site =>
      simp only [Option.map_some, isExempt_under h]
      split
      · rfl
      · have hGuarded := isGuardedForAccess_under h site
        simp only [Context.answer] at hGuarded
        simp only [Inquiry.answer_bind, hGuarded]
        split
        · rfl
        · exact h.congr_family (Option.map fun family => A.report .directAccess i
            [site.member, A.tree.render site.receiver, family.discriminant site.required])
            (fun hReorders => by simp only [Option.map_some, hReorders.discriminant_eq]) site.family

theorem projectionAccess?_under (i : A.Id) :
    (A.under d).answer ((A.under d).projectionAccess? i) = A.answer (A.projectionAccess? i) := by
  simp only [projectionAccess?, Inquiry.answer_bind, useSite?_under h, Context.answer]
  cases (A.useSite? i).answer A.config.classify with
  | none => rfl
  | some site =>
      simp only [Option.map_some, UseSite.under, projection?_under h]
      cases A.projection? site.receiver with
      | none => rfl
      | some found =>
          have hGuarded := isGuardedForAccess_under h site
          have hFiltered := isFiltered_under h found.1.receiver site.required
          simp only [Context.answer, UseSite.under] at hGuarded hFiltered
          simp only [Option.map_some, MemberCall.under, Inquiry.answer_bind, hGuarded]
          split
          · rfl
          · simp only [Inquiry.answer_bind, hFiltered]
            split
            · rfl
            · exact h.congr_family (Option.map fun family => A.report .projection i
                [site.member, A.tree.render site.receiver, found.1.method,
                  family.discriminant site.required])
                (fun hReorders => by simp only [Option.map_some, hReorders.discriminant_eq])
                site.family

theorem nullComparison?_under (i : A.Id) :
    (A.under d).answer ((A.under d).nullComparison? i) = A.answer (A.nullComparison? i) := by
  unfold nullComparison?
  rw [nullTest?_under]
  cases A.nullTest? i with
  | none => rfl
  | some test =>
      simp only [Inquiry.answer_bind, classify_under h, Classification.wrapper?_map, Context.answer]
      cases ((A.classify (A.tree.stripParens test.1)).answer A.config.classify).wrapper? with
      | none => rfl
      | some index =>
          exact h.congr_family (Option.map fun family => A.report .nullComparison i
            [A.tree.render i, family.name ++ " value", family.discriminant test.2])
            (fun hReorders => by
              simp only [Option.map_some, hReorders.name, hReorders.discriminant_eq]) index

theorem ternary?_under (i : A.Id) :
    (A.under d).answer ((A.under d).ternary? i) = A.answer (A.ternary? i) := by
  unfold ternary?
  dsimp only
  cases A.tree.node i with
  | conditional condition whenTrue whenFalse =>
      simp only [Inquiry.answer_bind, shape_under h, ternaryParts?_under, Context.answer]
      cases A.ternaryParts? ((A.shape condition).answer A.config.classify) whenTrue whenFalse with
      | none => rfl
      | some parts =>
          obtain ⟨subject, payload, fallback⟩ := parts
          dsimp only
          cases A.tree.node (A.tree.stripParens payload) with
          | memberAccess receiver member =>
              simp only [Inquiry.answer_bind, wrapperFamily?_under h, Context.answer]
              cases (A.wrapperFamily? subject).answer A.config.classify with
              | none => rfl
              | some index =>
                  dsimp only [Option.map_some]
                  cases hFamily : A.config.families[index]? with
                  | none => simp only [h.noFamily hFamily, Inquiry.answer_pure]
                  | some family =>
                      obtain ⟨other, hOther, hReorders⟩ := h.family hFamily
                      simp only [hOther, hReorders.payload?_eq, sameLocation_under]
                      split <;> rfl
          | _ => rfl
  | _ => rfl

/-- **A rule finds the same.** -/
theorem inspect_under (rule : Rule) (i : A.Id) :
    (A.under d).answer (rule.inspect (A.under d) i) = A.answer (rule.inspect A i) := by
  cases rule with
  | directAccess => exact directAccess?_under h i
  | ternary => exact ternary?_under h i
  | projection => exact projectionAccess?_under h i
  | nullComparison => exact nullComparison?_under h i

theorem findings_under (rules : List Rule) : (A.under d).findings rules = A.findings rules := by
  refine List.flatMap_congr fun i _ => ?_
  refine List.filterMap_congr fun rule _ => ?_
  rw [inspect_under h]

end Context

namespace Config

variable {c d : Config}

/-- By configurations with the same meaning, the same rules report the same. -/
theorem AgreesWith.exists_report {place : Nat → Nat} (h : c.AgreesWith d place)
    (hc : c.error? = none) (hd : d.error? = none) (rules : List Rule) (unit : SourceUnit) :
    ∃ report, c.Reports rules unit report ∧ d.Reports rules unit report := by
  have hFindings : (Context.ofUnit unit d).findings rules = (Context.ofUnit unit c).findings rules :=
    Context.findings_under (A := .ofUnit unit c) h rules
  refine ⟨_, ⟨⟨c, rules⟩, by simp only [Analyzer.withRules, hc], fun cache hCache =>
    Analyzer.run_eq ⟨c, rules⟩ unit hCache⟩, ⟨d, rules⟩, by simp only [Analyzer.withRules, hd],
    fun cache hCache => ?_⟩
  rw [Analyzer.run_eq ⟨d, rules⟩ unit hCache, Context.orderedFindings, Context.orderedFindings,
    hFindings]
  rfl

/-- **The order of an accepted configuration has no meaning.**  When its families, the type names in
them, the tables and the rules to leave out are put into other orders, it is accepted as before, with
the same families by name and the same rules.  Every type is of the same kind, with a family of the
same name; the role of a member in a family is the one before, whatever the order in which the roles
are tested; and every list of rules reports the same about every unit. -/
theorem order_has_no_meaning (h : c.Reorders d) (hc : c.validate = .ok c) :
    d.validate = .ok d ∧
    (d.families.map (·.name)).Perm (c.families.map (·.name)) ∧
    (∀ type, (c.classify type).SameIn c d (d.classify type)) ∧
    (∀ family ∈ c.families, ∀ other ∈ d.families, other.name = family.name →
      ∀ tests : List (Option String × Role), tests.Perm other.roleTests →
        ∀ member, Family.roleBy tests member = family.role? member) ∧
    d.rules = c.rules ∧
    ∀ rules unit, ∃ report, c.Reports rules unit report ∧ d.Reports rules unit report := by
  have hConsistent := validate_eq_ok_iff.1 hc
  have hConsistent' := h.isConsistent hConsistent
  obtain ⟨place, hAgrees⟩ := h.exists_agreesWith hConsistent
  refine ⟨validate_eq_ok_iff.2 hConsistent', h.map_name_perm, hAgrees.classify_sameIn, ?_, ?_,
    hAgrees.exists_report (error?_eq_none_iff.2 hConsistent) (error?_eq_none_iff.2 hConsistent')⟩
  · intro family hFamily other hOther hName tests hTests member
    have hReorders := h.reorders_of_name hConsistent hFamily hOther hName
    rw [Family.roleBy_of_perm (hConsistent'.family other hOther) hTests, hReorders.role?_eq]
  · rw [rules, rules, hAgrees.isRuleEnabled]

/-- The configuration with all its lists reversed. -/
def reversed (config : Config) : Config where
  families := (config.families.map fun family =>
    { family with typeNames := family.typeNames.reverse }).reverse
  asyncWrappers := config.asyncWrappers.reverse
  nonThrowingFactories := config.nonThrowingFactories.reverse
  callContexts := {
    dispatchMethods := config.callContexts.dispatchMethods.reverse
    okArgumentNames := config.callContexts.okArgumentNames.reverse
    notOkArgumentNames := config.callContexts.notOkArgumentNames.reverse
    okCombinators := config.callContexts.okCombinators.reverse
    notOkCombinators := config.callContexts.notOkCombinators.reverse }
  pipeline := {
    projectionMethods := config.pipeline.projectionMethods.reverse
    filterMethods := config.pipeline.filterMethods.reverse
    passthroughMethods := config.pipeline.passthroughMethods.reverse }
  analysis := config.analysis
  disabledRules := config.disabledRules.reverse

theorem reorders_reversed (config : Config) : config.Reorders config.reversed where
  families := by
    refine ⟨config.families.reverse, List.reverse_perm _, ?_⟩
    rw [reversed, ← List.map_reverse, List.forall₂_map_right_iff, List.forall₂_same]
    exact fun family _ => ⟨List.reverse_perm _, rfl⟩
  asyncWrappers := List.reverse_perm _
  nonThrowingFactories := List.reverse_perm _
  dispatchMethods := List.reverse_perm _
  okArgumentNames := List.reverse_perm _
  notOkArgumentNames := List.reverse_perm _
  okCombinators := List.reverse_perm _
  notOkCombinators := List.reverse_perm _
  projectionMethods := List.reverse_perm _
  filterMethods := List.reverse_perm _
  passthroughMethods := List.reverse_perm _
  analysis := rfl
  disabledRules := List.reverse_perm _

/-- With the default lists reversed, the family of results comes last, and the unguarded read of a
result is reported as before. -/
theorem reversed_defaults_report_the_same :
    (({} : Config).Reorders ({} : Config).reversed ∧ ({} : Config).validate = .ok {}) ∧
      ({} : Config).classify (.generic "CSharpFunctionalExtensions.Result" [.named "int"]) =
        .wrapper 0 ∧
      ({} : Config).reversed.classify
        (.generic "CSharpFunctionalExtensions.Result" [.named "int"]) = .wrapper 1 ∧
      ({} : Config).reversed.validate = .ok ({} : Config).reversed ∧
      ∃ report, ({} : Config).Reports Rule.all Analyzer.unguardedRead.toSourceUnit report ∧
        ({} : Config).reversed.Reports Rule.all Analyzer.unguardedRead.toSourceUnit report := by
  have hReorders := reorders_reversed {}
  have hAccepted : ({} : Config).validate = .ok {} := rfl
  obtain ⟨hReversed, -, -, -, -, hReports⟩ := order_has_no_meaning hReorders hAccepted
  exact ⟨⟨hReorders, hAccepted⟩, by decide +kernel, by decide +kernel, hReversed,
    hReports Rule.all Analyzer.unguardedRead.toSourceUnit⟩

end Config

end StateGuard
