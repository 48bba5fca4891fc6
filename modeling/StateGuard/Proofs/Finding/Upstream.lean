import StateGuard.Proofs.Config.Acceptance
import StateGuard.Proofs.Guard.Facts
import StateGuard.Proofs.Guard.Protection

/-!
# Filters before a projection

`Delivers` says which elements an expression can deliver as a sequence, without mention of the search
for a filter: an operator that filters delivers what it has received and its predicate can hold for,
an operator that keeps elements delivers nothing it has not received.  What the search accepts is held
against that.

The search goes on past a filter that proves nothing, and a predicate is read with the facts of its
body, so the element has to stand for every node with the symbol of the first parameter.  That a
method is not in both tables is what an accepted configuration makes sure of, and is needed: by the
rule for keeping elements alone it would pass what its predicate excludes.

## Main results

* `isFiltered_iff_stage`: the search finds exactly the stages that filter for the state.
* `FiltersFor.state_eq`: a predicate that filters for a state can hold for nothing else.
* `isFiltered_sound_and_exact`: what is accepted is delivered in the state only.
-/

namespace StateGuard

namespace Context

variable {ctx : Context} {Element : Type} {i : ctx.Id} {state : State}

/-! ## What a chain of operators delivers -/

/-- With a parameter bound to a value, every node with its symbol has the state of the value.
Parentheses around such a node change nothing. -/
def Assignment.Binds (σ : ctx.Assignment) (param : ctx.Id) (state : State) : Prop :=
  ∀ i, ctx.oracle.sameSymbol i param = true ∨
    ctx.oracle.sameSymbol (ctx.tree.stripParens i) param = true → σ.state i = state

/-- The body of a function can evaluate to true with the first parameter bound to a value in some
state.  Nothing is known of what is not written as a function with a parameter. -/
def CanHold (i : ctx.Id) (state : State) : Prop :=
  ∀ param params body isAsync, ctx.tree.node i = .lambda (param :: params) body isAsync →
    ∃ σ : ctx.Assignment, σ.Binds param state ∧ σ.allows body true = true

/-- An operator that the configuration takes to filter elements or to keep them. -/
def IsStage (call : ctx.MemberCall) : Prop :=
  ctx.config.pipeline.isFilter call.method = true ∨
    ctx.config.pipeline.isPassthrough call.method = true

/-- An expression can deliver an element as a sequence, given what the expressions at the beginning of
chains deliver.  A filter with one argument only passes elements that the argument can hold for, and
no operator of a chain passes an element that it did not receive. -/
inductive Delivers (stateOf : Element → State) (given : ctx.Id → Element → Prop) :
    ctx.Id → Element → Prop
  | parens {i inner e} : ctx.tree.node i = .parenthesized inner →
      Delivers stateOf given inner e → Delivers stateOf given i e
  | start {i e} : (∀ inner, ctx.tree.node i ≠ .parenthesized inner) →
      (∀ call, ctx.memberCall? i = some call → ¬ IsStage call) → given i e →
      Delivers stateOf given i e
  | filter {i call e} : ctx.memberCall? i = some call →
      ctx.config.pipeline.isFilter call.method = true →
      (∀ arg, call.args = [arg] → CanHold arg.value (stateOf e)) →
      Delivers stateOf given call.receiver e → Delivers stateOf given i e
  | passthrough {i call e} : ctx.memberCall? i = some call →
      ctx.config.pipeline.isPassthrough call.method = true →
      Delivers stateOf given call.receiver e → Delivers stateOf given i e

/-! ## The search -/

/-- A call of the chain before a sequence: receivers are followed, parentheses taken off, as long as
they are calls of operators that filter elements or keep them. -/
inductive OnChain : ctx.Id → ctx.MemberCall → Prop
  | last {i call} : ctx.memberCall? (ctx.tree.stripParens i) = some call → IsStage call →
      OnChain i call
  | earlier {i call before} : ctx.memberCall? (ctx.tree.stripParens i) = some call → IsStage call →
      OnChain call.receiver before → OnChain i before

theorem onChain_iff {call : ctx.MemberCall} : OnChain i call ↔
    ∃ here, ctx.memberCall? (ctx.tree.stripParens i) = some here ∧ IsStage here ∧
      (call = here ∨ OnChain here.receiver call) := by
  constructor
  · intro h
    cases h with
    | last hCall hStage => exact ⟨_, hCall, hStage, .inl rfl⟩
    | earlier hCall hStage hBefore => exact ⟨_, hCall, hStage, .inr hBefore⟩
  · rintro ⟨here, hCall, hStage, rfl | hBefore⟩
    · exact .last hCall hStage
    · exact .earlier hCall hStage hBefore

/-- An argument filters for a state: a function with a first parameter and an expression for its body,
from which a fact follows, for the case that it is true, that the parameter is in the state. -/
def FiltersFor (i : ctx.Id) (state : State) : Prop :=
  ∃ param params body isAsync, ctx.tree.node i = .lambda (param :: params) body isAsync ∧
    (ctx.tree.node body).isStatement = false ∧
    ∃ fact ∈ extract body none, fact.branch = .whenTrue ∧ fact.impliedState? = some state ∧
      ctx.oracle.sameSymbol (ctx.tree.stripParens fact.subject) param = true

theorem filtersFor_iff : ctx.answer (ctx.provesElements i state) = true ↔ FiltersFor i state := by
  rw [provesElements_iff]
  constructor
  · rintro ⟨param, params, body, isAsync, subject, hNode, hStatement, hEstablishes, hSame⟩
    obtain ⟨fact, hFact, hOutcome, rfl, hState⟩ := proves_shape_iff.2 hEstablishes
    refine ⟨param, params, body, isAsync, hNode, hStatement, fact, extract_none ▸ hFact, ?_, hState,
      hSame⟩
    cases hBranch : fact.branch with
    | whenTrue => rfl
    | whenFalse => simp [hBranch, Branch.outcome] at hOutcome
  · rintro ⟨param, params, body, isAsync, hNode, hStatement, fact, hFact, hBranch, hState, hSame⟩
    have hEstablishes := establishes_of_mem_extract hFact hState
    rw [hBranch] at hEstablishes
    exact ⟨param, params, body, isAsync, fact.subject, hNode, hStatement, hEstablishes, hSame⟩

/-- **The search finds exactly the stages that filter for the state.** -/
theorem isFiltered_iff_stage : ctx.answer (ctx.isFiltered i state) = true ↔
    ∃ call, OnChain i call ∧ ctx.config.pipeline.isFilter call.method = true ∧
      ∃ arg ∈ call.args, FiltersFor arg.value state := by
  constructor
  · intro h
    induction hHeight : ctx.tree.height i using Nat.strongRecOn generalizing i with
    | ind height ih =>
        obtain ⟨call, hCall, ⟨hFilter, arg, hArg, hProves⟩ | ⟨hStage, hEarlier⟩⟩ :=
          isFiltered_iff.1 h
        · exact ⟨call, .last hCall (.inl hFilter), hFilter, arg, hArg, filtersFor_iff.1 hProves⟩
        · have hLower : ctx.tree.height call.receiver < height :=
            hHeight ▸ Nat.lt_of_lt_of_le (height_receiver_lt hCall) (Arena.height_stripParens_le i)
          obtain ⟨before, hChain, hRest⟩ := ih _ hLower hEarlier rfl
          exact ⟨before, .earlier hCall hStage hChain, hRest⟩
  · rintro ⟨call, hChain, hFilter, arg, hArg, hFilters⟩
    induction hChain with
    | last hCall _ =>
        exact isFiltered_iff.2 ⟨_, hCall, .inl ⟨hFilter, arg, hArg, filtersFor_iff.2 hFilters⟩⟩
    | earlier hCall hStage _ ih => exact isFiltered_iff.2 ⟨_, hCall, .inr ⟨hStage, ih hFilter hArg⟩⟩

/-! ## What the search is worth -/

/-- **A predicate that filters for a state can hold for nothing else.** -/
theorem FiltersFor.state_eq (h : FiltersFor i state) {other : State} (hHold : CanHold i other) :
    other = state := by
  obtain ⟨param, params, body, isAsync, hNode, -, fact, hFact, hBranch, hState, hSame⟩ := h
  obtain ⟨σ, hBinds, hAllows⟩ := hHold param params body isAsync hNode
  have hEstablishes := establishes_of_mem_extract hFact hState
  rw [hBranch] at hEstablishes
  exact (hBinds _ (.inr hSame)).symm.trans (hEstablishes.sound hAllows)

theorem memberCall_of_callee {callee receiver : ctx.Id} {args : List (Argument ctx.Id)}
    {method : String} (hNode : ctx.tree.node i = .invocation callee args)
    (hCallee : ctx.tree.node (ctx.tree.stripParens callee) = .memberAccess receiver method) :
    ctx.memberCall? i = some ⟨i, receiver, method, args⟩ := by
  rw [memberCall?, hNode]
  simp [hCallee]

/-- A call has no parentheses around it. -/
theorem stripParens_of_memberCall {call : ctx.MemberCall} (h : ctx.memberCall? i = some call) :
    ctx.tree.stripParens i = i := by
  obtain ⟨callee, args, hNode⟩ := exists_invocation_of_memberCall h
  rw [Arena.stripParens, hNode]

/-- A call that counts as filtered filters for the state itself, or lets a sequence through that counts
as filtered. -/
theorem cases_of_isFiltered {call : ctx.MemberCall}
    (hCall : ctx.memberCall? (ctx.tree.stripParens i) = some call)
    (h : ctx.answer (ctx.isFiltered i state) = true) :
    (ctx.config.pipeline.isFilter call.method = true ∧
        ∃ arg ∈ call.args, FiltersFor arg.value state) ∨
      (IsStage call ∧ ctx.answer (ctx.isFiltered call.receiver state) = true) := by
  obtain ⟨found, hFound, hCases⟩ := isFiltered_iff.1 h
  obtain rfl : call = found := Option.some.inj (hCall.symm.trans hFound)
  rcases hCases with ⟨hFilter, arg, hArg, hProves⟩ | hLet
  · exact .inl ⟨hFilter, arg, hArg, filtersFor_iff.1 hProves⟩
  · exact .inr hLet

theorem onChain_parens {inner : ctx.Id} (h : ctx.tree.node i = .parenthesized inner)
    {call : ctx.MemberCall} : OnChain i call ↔ OnChain inner call := by
  rw [onChain_iff, onChain_iff, stripParens_parens h]

/-- **What is delivered is in the state** for which the sequence is filtered. -/
theorem Delivers.state_eq {stateOf : Element → State} {given : ctx.Id → Element → Prop} {e : Element}
    (hAccepted : ctx.config.error? = none) (hDelivers : Delivers stateOf given i e)
    (hSingle : ∀ call, OnChain i call → ctx.config.pipeline.isFilter call.method = true →
      call.args.length = 1)
    (hFiltered : ctx.answer (ctx.isFiltered i state) = true) : stateOf e = state := by
  induction hDelivers with
  | parens hNode _ ih =>
      refine ih (fun call hChain => hSingle call ((onChain_parens hNode).2 hChain)) ?_
      rw [isFiltered_iff] at hFiltered ⊢
      rwa [← stripParens_parens hNode]
  | @start i e hNode hNoStage _ =>
      obtain ⟨call, hCall, hCases⟩ := isFiltered_iff.1 hFiltered
      rw [Arena.stripParens_of_bare hNode] at hCall
      rcases hCases with ⟨hFilter, _⟩ | ⟨hStage, _⟩
      · exact absurd (.inl hFilter) (hNoStage call hCall)
      · exact absurd hStage (hNoStage call hCall)
  | @filter i call e hCall hFilter hHold _ ih =>
      have hHere : ctx.memberCall? (ctx.tree.stripParens i) = some call := by
        rwa [stripParens_of_memberCall hCall]
      rcases cases_of_isFiltered hHere hFiltered with ⟨-, arg, hArg, hFilters⟩ | ⟨hStage, hEarlier⟩
      · -- the only argument is the predicate that filters
        obtain ⟨only, hOnly⟩ :=
          List.length_eq_one_iff.1 (hSingle call (.last hHere (.inl hFilter)) hFilter)
        obtain rfl : arg = only := by simpa [hOnly] using hArg
        exact hFilters.state_eq (hHold arg hOnly)
      · exact ih (fun before hChain => hSingle before (.earlier hHere hStage hChain)) hEarlier
  | @passthrough i call e hCall hPass _ ih =>
      have hHere : ctx.memberCall? (ctx.tree.stripParens i) = some call := by
        rwa [stripParens_of_memberCall hCall]
      rcases cases_of_isFiltered hHere hFiltered with ⟨hFilter, -⟩ | ⟨hStage, hEarlier⟩
      · simp [Config.isPassthrough_of_isFilter hAccepted hFilter] at hPass
      · exact ih (fun before hChain => hSingle before (.earlier hHere hStage hChain)) hEarlier

/-- **The search for a filter is sound and exact.**  If a sequence counts as filtered for a state, and
every filter of the chain before it has one argument, then it delivers elements in that state only.
And it counts as filtered exactly when the chain has a filter with an argument that filters for the
state; any other operator ends the chain, and so does what is no call of an operator. -/
theorem isFiltered_sound_and_exact (hAccepted : ctx.config.error? = none) (source : ctx.Id)
    (state : State) :
    (ctx.answer (ctx.isFiltered source state) = true →
      (∀ call, OnChain source call → ctx.config.pipeline.isFilter call.method = true →
        call.args.length = 1) →
      ∀ (Element : Type) (stateOf : Element → State) (given : ctx.Id → Element → Prop) (e : Element),
        Delivers stateOf given source e → stateOf e = state) ∧
    (ctx.answer (ctx.isFiltered source state) = true ↔
      ∃ call, OnChain source call ∧ ctx.config.pipeline.isFilter call.method = true ∧
        ∃ arg ∈ call.args, FiltersFor arg.value state) ∧
    ((∀ call, ctx.memberCall? (ctx.tree.stripParens source) = some call → ¬ IsStage call) →
      ctx.answer (ctx.isFiltered source state) = false) := by
  refine ⟨?_, isFiltered_iff_stage, ?_⟩
  · intro hFiltered hSingle Element stateOf given e hDelivers
    exact hDelivers.state_eq hAccepted hSingle hFiltered
  · intro hEnd
    rw [← Bool.not_eq_true, isFiltered_iff_stage]
    rintro ⟨call, hChain, -⟩
    obtain ⟨here, hCall, hStage, -⟩ := onChain_iff.1 hChain
    exact hEnd here hCall hStage

/-- The tree of `xs.Where(x => x.IsSuccess)`. -/
def filteredSequence : Tree where
  size := 7
  node i := #v[.identifier "xs", .memberAccess 0 "Where", .parameter "x" none, .identifier "x",
    .memberAccess 3 "IsSuccess", .lambda [2] 4 false, .invocation 1 [⟨none, 5⟩]][i]
  root := 6
  parent i := #v[some 1, some 6, some 5, some 4, some 5, some 6, none][i]
  depth i := #v[2, 1, 2, 3, 2, 1, 0][i]
  parent_eq_some_iff := by decide
  children_nodup := by decide
  parent_root := by decide
  depth_of_parent := by decide
  depth_le_size := by decide
  file := "filtered.cs"
  span _ := ⟨.origin, .origin⟩

/-- The sequence `xs.Where(x => x.IsSuccess)` of results. -/
def successesOnly : Context := .ofUnit
  ⟨filteredSequence, (((Oracle.empty 7).setSymbol 2 "x@1").setSymbol 3 "x@1").setType 3
    (.generic "CSharpFunctionalExtensions.Result" [.named "int"])⟩ {}

/-- The call of the filter. -/
def filterCall : successesOnly.MemberCall :=
  ⟨(6 : Fin 7), (0 : Fin 7), "Where", [⟨none, (5 : Fin 7)⟩]⟩

theorem memberCall_filterCall : successesOnly.memberCall? (6 : Fin 7) = some filterCall := by
  have hCallee : successesOnly.tree.stripParens (1 : Fin 7) = (1 : Fin 7) :=
    Arena.stripParens_of_bare (by decide +kernel)
  exact memberCall_of_callee rfl (by rw [hCallee]; rfl)

theorem memberCall_start : successesOnly.memberCall? filterCall.receiver = none := rfl

theorem length_args_of_filterCall {call : successesOnly.MemberCall}
    (hChain : @OnChain successesOnly (6 : Fin 7) call) : call.args.length = 1 := by
  have hStrip : successesOnly.tree.stripParens filterCall.receiver = filterCall.receiver :=
    Arena.stripParens_of_bare (by decide +kernel)
  obtain ⟨here, hHere, -, hCases⟩ := onChain_iff.1 hChain
  rw [stripParens_of_memberCall memberCall_filterCall, memberCall_filterCall] at hHere
  obtain rfl := Option.some.inj hHere
  rcases hCases with rfl | hBefore
  · rfl
  · obtain ⟨first, hFirst, -⟩ := onChain_iff.1 hBefore
    rw [hStrip] at hFirst
    cases memberCall_start.symm.trans hFirst

/-- A sequence of results of any kind, filtered by their success, delivers successes and nothing
else. -/
theorem filter_delivers_successes_only :
    successesOnly.answer (successesOnly.isFiltered (6 : Fin 7) .ok) = true ∧
      @Delivers successesOnly State id (fun _ _ => True) (6 : Fin 7) .ok ∧
      ∀ e, @Delivers successesOnly State id (fun _ _ => True) (6 : Fin 7) e → e = .ok := by
  have hFiltered : successesOnly.answer (successesOnly.isFiltered (6 : Fin 7) .ok) = true := by
    decide +kernel
  have hHolds : @CanHold successesOnly (5 : Fin 7) .ok := by
    intro param params body isAsync hNode
    obtain ⟨⟨rfl, rfl⟩, rfl, rfl⟩ := Node.lambda.inj hNode
    exact ⟨⟨fun _ => .ok, fun _ _ _ => rfl⟩, fun _ _ => rfl, by decide +kernel⟩
  refine ⟨hFiltered, ?_, fun e hDelivers => ?_⟩
  · refine .filter memberCall_filterCall rfl (fun arg hArg => ?_)
      (.start ?_ (fun call hNone => ?_) trivial)
    · obtain rfl : ⟨none, (5 : Fin 7)⟩ = arg := (List.cons.inj hArg).1
      exact hHolds
    · decide +kernel
    · cases memberCall_start.symm.trans hNone
  · exact (@isFiltered_sound_and_exact successesOnly rfl (6 : Fin 7) .ok).1 hFiltered
      (fun _ hChain _ => length_args_of_filterCall hChain) State id (fun _ _ => True) e hDelivers

end Context

end StateGuard
