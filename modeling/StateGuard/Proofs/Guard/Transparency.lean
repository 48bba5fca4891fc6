import StateGuard.Guard.Walk
import StateGuard.Proofs.Guard.Parentheses
import StateGuard.Proofs.Guard.UseSite

/-!
# Parentheses are transparent

With parentheses inserted a read is the same read, and what guards it is the same.  The walk around a read
meets inserted pairs that are not there without them, and decides nothing at them; at every other construct
it decides the same.

## Main results

* `Parenthesized.useSite_core`: a read is the same read.
* `Parenthesized.verdict_core`, `Parenthesized.answer_verdict_inserted`: what a step of the walk decides.
* `Parenthesized.ascend_core`: what the walk decides.
* `Parenthesized.parentheses_change_no_meaning`: the whole.
-/

namespace StateGuard.Context

open Arena Arena.Insertion

namespace Parenthesized

variable {A B : Context} (e : Parenthesized A B) {p : B.Id}

/-! ## Reads -/

theorem bindingReceiver_core (hp : e.inserted p = false) :
    A.bindingReceiver? (e.core p) = (B.bindingReceiver? p).map e.core := by
  unfold bindingReceiver?
  apply findSome?_ancestors
  · intro a ha
    rw [e.node_core ha]
    cases B.tree.node a with
    | conditionalAccess receiver rest =>
        simp only [Node.map_conditionalAccess, ← isWithin_iff_core hp]
        split
        · rfl
        · rfl
    | _ => simp
  · intro a ha
    obtain ⟨inner, hNode, -⟩ := e.parens ha
    simp [hNode]

theorem readMember_core (hp : e.inserted p = false) :
    A.readMember? (e.core p) = (B.readMember? p).map (Prod.map e.core id) := by
  unfold readMember?
  rw [e.node_core hp]
  cases B.tree.node p with
  | memberAccess receiver member => rfl
  | memberBinding member =>
      simp only [Node.map_memberBinding, e.bindingReceiver_core hp, Option.map_map]
      rfl
  | _ => simp

/-- **A read is the same read.** -/
theorem useSite_core (hp : e.inserted p = false) :
    A.answer (A.useSite? (e.core p)) = (B.answer (B.useSite? p)).map e.site := by
  unfold useSite?
  rw [e.readMember_core hp]
  cases B.readMember? p with
  | none => rfl
  | some read =>
      simp only [Option.map_some, Prod.map, id, Inquiry.answer_bind, e.wrapperFamily_core,
        e.config_eq, Context.answer]
      cases (B.wrapperFamily? read.1).answer A.config.classify with
      | none => rfl
      | some family =>
          dsimp only
          cases A.config.role? family read.2 with
          | none => rfl
          | some role => cases role <;> rfl

variable {site : B.UseSite}

/-- A read is no pair of parentheses. -/
theorem copy_of_useSite (hSite : B.answer (B.useSite? site.node) = some site) :
    e.inserted site.node = false := by
  apply e.copy_of_bare
  intro inner hNode
  obtain ⟨-, hRead, -⟩ := useSite_eq_some_iff.1 hSite
  rw [readMember?, hNode] at hRead
  simp at hRead

/-- No inserted pair stands directly around the receiver of a read. -/
theorem exists_copy_around_receiver (hSite : B.answer (B.useSite? site.node) = some site) :
    ∃ m, e.inserted m = false ∧ B.tree.parent site.receiver = some m := by
  rcases receiver_cases hSite with hPart | ⟨access, rest, hAccess, -⟩
  · exact ⟨site.node, e.copy_of_useSite hSite, (B.tree.parent_eq_some_iff _ _).2 hPart⟩
  · refine ⟨access, e.copy_of_bare (by simp [hAccess]), ?_⟩
    exact (B.tree.parent_eq_some_iff _ _).2 (by simp [hAccess, Node.children])

/-! ## Steps of the walk -/

variable {required : State} {construct child : B.Id}

theorem branchProves_core (hSite : e.inserted site.node = false)
    (hConstruct : e.inserted construct = false) :
    A.answer (branchProves (e.site site) required (e.core construct)) =
      B.answer (branchProves site required construct) := by
  unfold branchProves
  rw [condition_core hConstruct]
  cases B.tree.condition? construct with
  | none => rfl
  | some condition =>
      simp only [Option.map_some, Inquiry.answer_bind, Inquiry.answer_pure]
      refine (congrArg (List.any · _) (e.factsAbout_core condition site.receiver)).trans ?_
      rw [List.any_map]
      refine congrArg (List.any _) (funext fun fact => ?_)
      exact congrArg (_ && ·) (isUnder_core hSite hConstruct fact.branch)

theorem lambdaVerdict_core (hConstruct : e.inserted construct = false)
    (hLambda : (B.tree.node construct).kind = .lambda) :
    lambdaVerdict (e.site site) required (e.core construct) =
      lambdaVerdict site required construct := by
  unfold lambdaVerdict
  rw [e.callTaking_core hConstruct hLambda, e.config_eq]
  cases B.callTaking? construct with
  | none => rfl
  | some taken =>
      have hSame := e.sameLocation_core taken.1.receiver site.receiver
      simp only [Option.map_some, Prod.map, Parenthesized.call, Parenthesized.site, hSame]
      rfl

/-- A conditional access guards the same reads: its parts, and receivers, are told apart by their
cores. -/
theorem accessVerdict_core (hSite : B.answer (B.useSite? site.node) = some site)
    {receiver rest : B.Id} (hNode : B.tree.node construct = .conditionalAccess receiver rest)
    (hParent : B.tree.parent child = some construct) :
    accessVerdict (e.site site) (e.core child) (e.core receiver) (e.core rest) =
      accessVerdict site child receiver rest := by
  have hConstruct : e.inserted construct = false := e.copy_of_bare (by simp [hNode])
  have hPart := (B.tree.parent_eq_some_iff child construct).1 hParent
  have hFirst : receiver ∈ (B.tree.node construct).children := by simp [hNode, Node.children]
  have hSecond : rest ∈ (B.tree.node construct).children := by simp [hNode, Node.children]
  obtain ⟨m, hm, hAround⟩ := e.exists_copy_around_receiver hSite
  have hRest : e.core child = e.core rest ↔ child = rest :=
    ⟨eq_of_core_eq_of_parts hConstruct hPart hSecond, congrArg e.core⟩
  have hReceiver : e.core receiver = e.core site.receiver ↔ receiver = site.receiver :=
    ⟨eq_of_parents hConstruct hm ((B.tree.parent_eq_some_iff receiver construct).2 hFirst) hAround,
      congrArg e.core⟩
  simp only [accessVerdict, Parenthesized.site, hRest, hReceiver, e.sameLocation_core]

/-- **A construct decides the same about a read.** -/
theorem verdict_core (hSite : B.answer (B.useSite? site.node) = some site)
    (hConstruct : e.inserted construct = false) (hParent : B.tree.parent child = some construct) :
    A.answer (verdict (e.site site) required (e.core child) (e.core construct)) =
      B.answer (verdict site required child construct) := by
  have hBranch : A.answer (branchProves (e.site site) required (e.core construct)) =
      B.answer (branchProves site required construct) :=
    e.branchProves_core (e.copy_of_useSite hSite) hConstruct
  unfold verdict
  rw [e.node_core hConstruct]
  cases hNode : B.tree.node construct with
  | conditionalAccess receiver rest => exact e.accessVerdict_core hSite hNode hParent
  | lambda params body isAsync =>
      exact e.lambdaVerdict_core hConstruct (by rw [hNode, Node.kind])
  | method name returnType params body isAsync => simp
  | compilationUnit members => simp
  | _ => simp [Inquiry.answer_bind, hBranch]

/-- At an inserted pair of parentheses nothing is decided. -/
theorem answer_verdict_inserted (hConstruct : e.inserted construct = true) :
    B.answer (verdict site required child construct) = .undecided := by
  obtain ⟨inner, hNode, -⟩ := e.parens hConstruct
  simp [verdict, branchProves, condition?, hNode]

/-! ## The walk -/

/-- **The walk decides the same,** from any node on: it passes through inserted pairs. -/
theorem ascend_core (hSite : B.answer (B.useSite? site.node) = some site) (child : B.Id) :
    A.answer (ascend (e.site site) required (e.core child) (A.tree.ancestors (e.core child))) =
      B.answer (ascend site required child (B.tree.ancestors child)) := by
  induction child using induction_parent with
  | step child ih =>
      cases hParent : B.tree.parent child with
      | none =>
          rw [ancestors_of_parent_none hParent, ancestors_of_parent_none (parent_core_eq_none hParent)]
          rfl
      | some construct =>
          rw [ancestors_of_parent hParent, ascend]
          cases hConstruct : e.inserted construct with
          | true =>
              simp only [Inquiry.answer_bind, e.answer_verdict_inserted hConstruct]
              rw [core_of_inserted hConstruct hParent]
              exact ih construct hParent
          | false =>
              rw [ancestors_of_parent (parent_core hConstruct hParent), ascend]
              simp only [Inquiry.answer_bind, e.verdict_core hSite hConstruct hParent,
                Context.answer]
              cases (verdict site required child construct).answer B.config.classify with
              | guarded => rfl
              | unguarded => rfl
              | undecided => exact ih construct hParent

theorem isGuarded_core (hSite : B.answer (B.useSite? site.node) = some site) (predicate : Predicate)
    (truth : Bool) :
    A.answer (isGuarded (e.site site) predicate truth) =
      B.answer (isGuarded site predicate truth) := by
  unfold isGuarded
  cases predicate.impliedState? truth with
  | none => rfl
  | some required => exact e.ascend_core hSite site.node

/-- **Parentheses change no meaning.**  With parentheses inserted, but not around what is handed over as
a lambda or an out variable nor around what a conditional access reads behind its receiver, every
condition has the same shape and the same facts, with any hint; every expression evaluates to the same
wrapper, and every call is the same call; and every read is the same read, guarded exactly if it was,
whatever is asked about it. -/
theorem parentheses_change_no_meaning :
    (∀ p, A.answer (A.shape (e.core p)) = (B.answer (B.shape p)).map e.core) ∧
    (∀ p hint, extract (e.core p) (hint.map e.core) = (extract p hint).map (Fact.map e.core)) ∧
    (∀ p, A.answer (A.wrapperFamily? (e.core p)) = B.answer (B.wrapperFamily? p)) ∧
    (∀ p, e.inserted p = false → A.memberCall? (e.core p) = (B.memberCall? p).map e.call) ∧
    ∀ p, e.inserted p = false →
      A.answer (A.useSite? (e.core p)) = (B.answer (B.useSite? p)).map e.site ∧
        ∀ site, B.answer (B.useSite? p) = some site → ∀ predicate truth,
          A.answer (isGuarded (e.site site) predicate truth) =
            B.answer (isGuarded site predicate truth) := by
  refine ⟨e.shape_core, e.extract_core, e.wrapperFamily_core, fun p hp => e.memberCall_core hp, ?_⟩
  intro p hp
  refine ⟨e.useSite_core hp, ?_⟩
  intro site hSite
  obtain ⟨rfl, -⟩ := useSite_eq_some_iff.1 hSite
  exact e.isGuarded_core hSite

end Parenthesized

/-! ## A grouped read -/

/-- The tree of `return r.TryGetValue(out v) ? r.Value : 0`. -/
def bareRead : Tree where
  size := 9
  node i := #v[.identifier "r", .memberAccess 0 "TryGetValue", .outVariable "v" none,
    .invocation 1 [⟨none, 2⟩], .identifier "r", .memberAccess 4 "Value", .literal (.int 0),
    .conditional 3 5 6, .returnStatement (some 7)][i]
  root := 8
  parent i := #v[some 1, some 3, some 3, some 7, some 5, some 7, some 7, some 8, none][i]
  depth i := #v[4, 3, 3, 2, 3, 2, 2, 1, 0][i]
  parent_eq_some_iff := by decide
  children_nodup := by decide
  parent_root := by decide
  depth_of_parent := by decide
  depth_le_size := by decide
  file := "bare.cs"
  span _ := ⟨.origin, .origin⟩

/-- The tree of `return (((r).TryGetValue)(out v)) ? ((r)).Value : 0`. -/
def groupedRead : Tree where
  size := 14
  node i := #v[.identifier "r", .parenthesized 0, .memberAccess 1 "TryGetValue", .parenthesized 2,
    .outVariable "v" none, .invocation 3 [⟨none, 4⟩], .parenthesized 5, .identifier "r",
    .parenthesized 7, .parenthesized 8, .memberAccess 9 "Value", .literal (.int 0),
    .conditional 6 10 11, .returnStatement (some 12)][i]
  root := 13
  parent i := #v[some 1, some 2, some 3, some 5, some 5, some 6, some 12, some 8, some 9, some 10,
    some 12, some 12, some 13, none][i]
  depth i := #v[7, 6, 5, 4, 4, 3, 2, 5, 4, 3, 2, 2, 1, 0][i]
  parent_eq_some_iff := by decide
  children_nodup := by decide
  parent_root := by decide
  depth_of_parent := by decide
  depth_le_size := by decide
  file := "grouped.cs"
  span _ := ⟨.origin, .origin⟩

/-- The type of a result. -/
def resultType : TypeRef := .generic "CSharpFunctionalExtensions.Result" [.named "int"]

/-- The bare read, where `r` is a result. -/
def bareUnit : Context := .ofUnit
  ⟨bareRead, ⟨#v[some resultType, none, none, none, some resultType, none, none, none, none],
    #v[some "r", none, none, none, some "r", none, none, none, none]⟩⟩ {}

/-- The grouped read, where `r` is the same result. -/
def groupedUnit : Context := .ofUnit
  ⟨groupedRead, ⟨#v[some resultType, some resultType, none, none, none, none, none, some resultType,
      some resultType, some resultType, none, none, none, none],
    #v[some "r", none, none, none, none, none, none, some "r", none, none, none, none, none, none]⟩⟩
  {}

/-- What the nodes of the grouped unit stand for. -/
def groupedCore (p : groupedUnit.Id) : bareUnit.Id :=
  (#v[0, 0, 1, 1, 2, 3, 3, 4, 4, 4, 5, 6, 7, 8] : Vector (Fin 9) 14)[p]

/-- The pairs of parentheses of the grouped unit. -/
def isGrouping (p : groupedUnit.Id) : Bool :=
  #v[false, true, false, true, false, false, true, false, true, true, false, false, false, false][p]

/-- The one unit is the other with parentheses inserted. -/
def grouping : Parenthesized bareUnit groupedUnit where
  core := groupedCore
  inserted := isGrouping
  parens {p} := by revert p; decide +kernel
  node_core {p} := by revert p; decide +kernel
  exists_copy := by decide +kernel
  copy_unique {p q} := by revert p q; decide +kernel
  bare_rest {p receiver rest} := by revert p receiver rest; decide +kernel
  bare_argument {p callee args} _ hNode arg hArg _ := by
    -- in this unit the arguments of calls are bare whatever they are
    have hBare : ∀ p c : groupedUnit.Id, (groupedUnit.tree.node p).kind = .invocation →
        c ∈ (groupedUnit.tree.node p).children.tail → isGrouping c = false := by
      decide +kernel
    refine hBare p arg.value (congrArg Node.kind hNode) ?_
    rw [hNode]
    exact List.mem_map_of_mem hArg
  config_eq := rfl
  typeOf_copy {p} := by revert p; decide +kernel
  typeOf_parens {p inner} := by revert p inner; decide +kernel
  sameSymbol_copy {p q} := by revert p q; decide +kernel

/-- The read in the grouped unit. -/
def groupedSite : groupedUnit.UseSite := ⟨(10 : Fin 14), "Value", (9 : Fin 14), 0, .ok⟩

/-- A read of `((r)).Value` is guarded by a try with parentheses around its receiver, its callee and
itself, as the bare read is by the bare try. -/
theorem grouped_read_is_guarded :
    groupedUnit.answer (groupedUnit.useSite? (10 : Fin 14)) = some groupedSite ∧
      groupedUnit.answer (isGuarded groupedSite (.discriminant .ok) true) = true := by
  have hSite : groupedUnit.answer (groupedUnit.useSite? (10 : Fin 14)) = some groupedSite :=
    useSite_eq_some_iff.2 ⟨rfl, rfl, by decide +kernel, by decide +kernel⟩
  have hBare : bareUnit.answer (isGuarded (grouping.site groupedSite) (.discriminant .ok) true) =
      true := by
    decide +kernel
  have hSame := (grouping.parentheses_change_no_meaning.2.2.2.2 (10 : Fin 14) rfl).2 groupedSite
    hSite (.discriminant .ok) true
  exact ⟨hSite, hSame.symm.trans hBare⟩

end StateGuard.Context
