import StateGuard.Analysis.Inspection
import StateGuard.Proofs.Analysis.Transport
import StateGuard.Proofs.Safety.Recognition

/-!
# Rules before acceptance

The rules as they run on a unit that a host hands in.  The walk up from a use site goes through the
constructs around it by number, and the argument that a lambda is gets read from the list of
arguments by its position.  On a unit that is accepted every rule ends at every number of a part,
with the finding of the analysis.

## Main results

* `AcceptedAs.isCallback_run`: the position of a lambda among the arguments is one of an argument.
* `AcceptedAs.isFiltered_run`: the chain of calls before a projection ends.
* `AcceptedAs.inspect_run`: **every rule at every node.**
-/

namespace StateGuard

theorem Node.isStatement_map {ι κ : Type} (f : ι → κ) (node : Node ι) :
    (node.map f).isStatement = node.isStatement := by
  cases node <;> simp [isStatement]

namespace RawUnit

noncomputable section

variable (raw : RawUnit)

/-! ## Guards -/

/-- The condition of a construct with branches. -/
def condition? (i : Nat) : Run (Option Nat) := do
  match ← raw.node i with
  | .ifStatement condition _ _ => return some condition
  | .conditional condition _ _ => return some condition
  | .binary .and left _ => return some left
  | .binary .or left _ => return some left
  | _ => return none

/-- The part of a construct that runs only for one outcome of its condition. -/
def branch? (i : Nat) (branch : Branch) : Run (Option Nat) := do
  match branch, ← raw.node i with
  | .whenTrue, .ifStatement _ thenBranch _ => return some thenBranch
  | .whenTrue, .conditional _ whenTrue _ => return some whenTrue
  | .whenTrue, .binary .and _ right => return some right
  | .whenFalse, .ifStatement _ _ elseBranch => return elseBranch
  | .whenFalse, .conditional _ _ whenFalse => return some whenFalse
  | .whenFalse, .binary .or _ right => return some right
  | _, _ => return none

/-- Whether a part lies in a branch of a construct. -/
def isUnder (i construct : Nat) (branch : Branch) : Run Bool := do
  match ← raw.branch? construct branch with
  | some part => raw.isWithin i part
  | none => return false

/-- Whether a branch around the site proves the required state. -/
def branchProves (site : Site) (required : State) (construct : Nat) : Run Bool := do
  match ← raw.condition? construct with
  | none => return false
  | some condition =>
    (← raw.factsAbout condition site.receiver).anyM fun fact => do
      if fact.impliedState? = some required then raw.isUnder site.node construct fact.branch
      else return false

/-- Whether a lambda is a callback of the receiver for the required state. Its own argument is read
from those of the call by the position that was found. -/
def isCallback (site : Site) (required : State) (lambda : Nat) : Run Bool := do
  match ← raw.callTaking? lambda with
  | none => return false
  | some (call, position) =>
    let arg ← call.args[position]?
    if raw.config.callContexts.callbackState? call.method arg.name position = some required then
      raw.sameLocation call.receiver site.receiver
    else return false

/-- What a lambda around the site decides. -/
def lambdaVerdict (site : Site) (required : State) (lambda : Nat) : Run Context.Verdict := do
  if ← raw.isCallback site required lambda then return .guarded
  else if raw.config.analysis.crossLambdaBoundaries then return .undecided
  else return .unguarded

/-- What a conditional access around the site decides. -/
def accessVerdict (site : Site) (child receiver rest : Nat) : Run Context.Verdict := do
  if child = rest then
    if receiver = site.receiver then return .guarded
    else if ← raw.sameLocation receiver site.receiver then return .guarded
    else return .undecided
  else return .undecided

/-- What a construct around the site decides. -/
def verdict (site : Site) (required : State) (child construct : Nat) : Run Context.Verdict := do
  match ← raw.node construct with
  | .conditionalAccess receiver rest => raw.accessVerdict site child receiver rest
  | .lambda .. => raw.lambdaVerdict site required construct
  | .method .. => return .unguarded
  | .compilationUnit .. => return .unguarded
  | _ => return if ← raw.branchProves site required construct then .guarded else .undecided

/-- Walk up the constructs around the site until one decides. -/
def ascend (site : Site) (required : State) (child : Nat) : List Nat → Run Bool
  | [] => return false
  | construct :: rest => do
    match ← raw.verdict site required child construct with
    | .guarded => return true
    | .unguarded => return false
    | .undecided => ascend site required construct rest

/-- Whether a site is reached only in the state it requires. -/
def isGuardedForAccess (site : Site) : Run Bool := do
  raw.ascend site site.required site.node (← raw.ancestors site.node)

/-! ## Rules -/

/-- A diagnostic about a part. -/
def report (rule : Rule) (i : Nat) (arguments : List String) : Run Diagnostic := do
  return ⟨rule, raw.file, ← raw.span i, i, arguments⟩

/-- Whether an expression calls a factory that is known not to fail. -/
def isFactoryCall (i : Nat) : Run Bool := do
  match ← raw.memberCall? (← raw.stripParens i) with
  | some call => return raw.config.isNonThrowingFactory call.method
  | none => return false

/-- Whether the rule about single reads leaves a site alone. -/
def isExempt (site : Site) : Run Bool := do
  if ← raw.isFactoryCall site.receiver then return true
  else return (← raw.projection? site.receiver).isSome

/-- The finding of an unguarded read. -/
def directAccess? (i : Nat) : Run (Option Diagnostic) := do
  match ← raw.useSite? i with
  | none => return none
  | some site =>
    if ← raw.isExempt site then return none
    else if ← raw.isGuardedForAccess site then return none
    else
      match raw.config.families[site.family]? with
      | none => return none
      | some family =>
        return some (← raw.report .directAccess i
          [site.member, ← raw.render site.receiver, family.discriminant site.required])

/-- Whether an expression is the null literal. -/
def isNull (i : Nat) : Run Bool := do
  match ← raw.node (← raw.stripParens i) with
  | .literal .null => return true
  | _ => return false

/-- The side of a comparison that is compared with null. -/
def otherThanNull? (left right : Nat) : Run (Option Nat) := do
  match ← raw.isNull left, ← raw.isNull right with
  | false, true => return some left
  | true, false => return some right
  | _, _ => return none

/-- The operand of a comparison with null, and the state that the test asks about. -/
def nullTest? (i : Nat) : Run (Option (Nat × State)) := do
  match ← raw.node i with
  | .binary .eq left right => return (← raw.otherThanNull? left right).map (·, .notOk)
  | .binary .notEq left right => return (← raw.otherThanNull? left right).map (·, .ok)
  | .isPattern operand .null => return some (operand, .notOk)
  | .isPattern operand .notNull => return some (operand, .ok)
  | _ => return none

/-- The finding of a comparison with null. -/
def nullComparison? (i : Nat) : Run (Option Diagnostic) := do
  match ← raw.nullTest? i with
  | none => return none
  | some (operand, state) =>
    match (raw.classify (← raw.stripParens operand)).wrapper? with
    | none => return none
    | some index =>
      match raw.config.families[index]? with
      | none => return none
      | some family =>
        return some (← raw.report .nullComparison i
          [← raw.render i, family.name ++ " value", family.discriminant state])

/-- Whether an argument is a predicate that holds only for elements in a state. -/
def provesElements (i : Nat) (state : State) : Run Bool := do
  match ← raw.node i with
  | .lambda (param :: _) body _ =>
    if (← raw.node body).isStatement then return false
    else
      (← raw.shape body).facts.anyM fun fact => do
        if fact.branch = .whenTrue && fact.impliedState? = some state then
          return raw.sameSymbol (← raw.stripParens fact.subject) param
        else return false
  | _ => return false

/-- Whether the elements of a sequence have passed a filter for a state. -/
def isFiltered (i : Nat) (state : State) : Run Bool := i |> Run.fix fun isFiltered i => do
  match ← raw.memberCall? (← raw.stripParens i) with
  | none => return false
  | some call =>
    if raw.config.pipeline.isFilter call.method then
      if ← call.args.anyM fun arg => raw.provesElements arg.value state then return true
      else isFiltered call.receiver
    else if raw.config.pipeline.isPassthrough call.method then isFiltered call.receiver
    else return false

/-- The finding of an unguarded read in a projection. -/
def projectionAccess? (i : Nat) : Run (Option Diagnostic) := do
  match ← raw.useSite? i with
  | none => return none
  | some site =>
    match ← raw.projection? site.receiver with
    | none => return none
    | some call =>
      if ← raw.isGuardedForAccess site then return none
      else if ← raw.isFiltered call.receiver site.required then return none
      else
        match raw.config.families[site.family]? with
        | none => return none
        | some family =>
          return some (← raw.report .projection i
            [site.member, ← raw.render site.receiver, call.method,
             family.discriminant site.required])

/-- The parts of a conditional expression over one discriminant: the subject, the value when the
subject is ok, and the value when it is not. -/
def ternaryParts? (shape : Shape Nat) (whenTrue whenFalse : Nat) : Option (Nat × Nat × Nat) := do
  let subject ← shape.subject?
  match ← Context.okBranch? shape with
  | .whenTrue => return (subject, whenTrue, whenFalse)
  | .whenFalse => return (subject, whenFalse, whenTrue)

/-- The finding of a spelled-out default. -/
def ternary? (i : Nat) : Run (Option Diagnostic) := do
  match ← raw.node i with
  | .conditional condition whenTrue whenFalse =>
    match ternaryParts? (← raw.shape condition) whenTrue whenFalse with
    | none => return none
    | some (subject, payload, fallback) =>
      match ← raw.node (← raw.stripParens payload) with
      | .memberAccess receiver member =>
        match ← raw.wrapperFamily? subject with
        | none => return none
        | some index =>
          match raw.config.families[index]? with
          | none => return none
          | some family =>
            if family.payload? .ok = some member then
              if ← raw.sameLocation receiver subject then
                return some (← raw.report .ternary i
                  [← raw.render i, ← raw.render subject, ← raw.render fallback])
              else return none
            else return none
      | _ => return none
  | _ => return none

/-- What a rule finds at a part. -/
def inspect (rule : Rule) (i : Nat) : Run (Option Diagnostic) :=
  match rule with
  | .directAccess => raw.directAccess? i
  | .ternary => raw.ternary? i
  | .projection => raw.projectionAccess? i
  | .nullComparison => raw.nullComparison? i

/-! ## On an accepted unit -/

namespace AcceptedAs

variable {raw} {ctx : Context} (h : raw.AcceptedAs ctx)
include h

/-! ### Guards -/

theorem condition_run (i : ctx.Id) :
    raw.condition? i = some ((ctx.tree.condition? i).map Fin.val) := by
  unfold RawUnit.condition? Arena.condition?
  rw [h.node, Run.some_bind]
  cases ctx.tree.node i with
  | binary op left right => cases op <;> rfl
  | _ => simp

theorem branch_run (i : ctx.Id) (branch : Branch) :
    raw.branch? i branch = some ((ctx.tree.branch? i branch).map Fin.val) := by
  unfold RawUnit.branch? Arena.branch?
  rw [h.node, Run.some_bind]
  cases branch with
  | whenTrue =>
      cases ctx.tree.node i with
      | binary op left right => cases op <;> rfl
      | _ => simp
  | whenFalse =>
      cases ctx.tree.node i with
      | binary op left right => cases op <;> rfl
      | _ => simp

theorem isUnder_run (i construct : ctx.Id) (branch : Branch) :
    raw.isUnder i construct branch = some (ctx.tree.isUnder i construct branch) := by
  unfold RawUnit.isUnder Arena.isUnder
  rw [h.branch_run, Run.some_bind]
  cases ctx.tree.branch? construct branch with
  | none => rfl
  | some part => exact h.isWithin_run i part

theorem factsAbout_run (condition subject : ctx.Id) :
    raw.factsAbout condition subject =
      some ((ctx.answer (ctx.factsAbout condition subject)).map (Fact.map Fin.val)) := by
  simp only [RawUnit.factsAbout, Context.factsAbout, Context.facts, h.shape_run, Run.some_bind,
    Shape.facts_map, Inquiry.answer_bind, Inquiry.answer_pure]
  apply Run.filterM_map
  intro fact _
  exact h.sameLocation_run fact.subject subject

theorem branchProves_run (found : ctx.UseSite) (required : State) (construct : ctx.Id) :
    raw.branchProves (site found) required construct =
      some (ctx.answer (Context.branchProves found required construct)) := by
  unfold RawUnit.branchProves Context.branchProves
  rw [h.condition_run, Run.some_bind]
  cases ctx.tree.condition? construct with
  | none => rfl
  | some condition =>
      simp only [Option.map_some, site, h.factsAbout_run, Run.some_bind, Inquiry.answer_bind,
        Inquiry.answer_pure]
      apply Run.anyM_map
      intro fact _
      show (if fact.impliedState? = some required then _ else _) = _
      by_cases hState : fact.impliedState? = some required
      · simp [hState, Fact.map, h.isUnder_run]
      · simp [hState]

theorem isCallback_run (found : ctx.UseSite) (required : State) (lambda : ctx.Id) :
    raw.isCallback (site found) required lambda =
      some (match ctx.callTaking? lambda with
        | some (call, arg, position) =>
          ctx.config.callContexts.callbackState? call.method arg.name position = some required &&
            ctx.sameLocation call.receiver found.receiver
        | none => false) := by
  unfold RawUnit.isCallback
  rw [h.callTaking_run, Run.some_bind]
  cases hTaking : ctx.callTaking? lambda with
  | none => rfl
  | some taking =>
      obtain ⟨call, arg, position⟩ := taking
      have hArg : (AcceptedAs.call call).args[position]? = some (arg.map Fin.val) := by
        simp [AcceptedAs.call, getElem?_of_callTaking hTaking]
      simp only [Option.map_some, hArg, Run.some_bind, h.config, site]
      show (if ctx.config.callContexts.callbackState? call.method arg.name position =
        some required then raw.sameLocation call.receiver found.receiver else _) = _
      rw [h.sameLocation_run]
      split <;> simp_all

theorem lambdaVerdict_run (found : ctx.UseSite) (required : State) (lambda : ctx.Id) :
    raw.lambdaVerdict (site found) required lambda =
      some (Context.lambdaVerdict found required lambda) := by
  unfold RawUnit.lambdaVerdict Context.lambdaVerdict
  simp only [h.isCallback_run, Run.some_bind, h.config]
  cases ctx.callTaking? lambda with
  | none => cases ctx.config.analysis.crossLambdaBoundaries <;> rfl
  | some taking =>
      obtain ⟨call, arg, position⟩ := taking
      dsimp only
      split
      · rfl
      · cases ctx.config.analysis.crossLambdaBoundaries <;> rfl

theorem accessVerdict_run (found : ctx.UseSite) (child receiver rest : ctx.Id) :
    raw.accessVerdict (site found) child receiver rest =
      some (Context.accessVerdict found child receiver rest) := by
  unfold RawUnit.accessVerdict Context.accessVerdict
  simp only [site, Fin.val_inj, h.sameLocation_run, Run.some_bind]
  by_cases hChild : child = rest
  · by_cases hReceiver : receiver = found.receiver
    · simp [hChild, hReceiver]
    · cases hSame : ctx.sameLocation receiver found.receiver <;> simp [hChild, hReceiver]
  · simp [hChild]

theorem verdict_run (found : ctx.UseSite) (required : State) (child construct : ctx.Id) :
    raw.verdict (site found) required child construct =
      some (ctx.answer (Context.verdict found required child construct)) := by
  have hBranch : (do
        return if ← raw.branchProves (site found) required construct then
          Context.Verdict.guarded else .undecided : Run Context.Verdict) =
      some (ctx.answer (do
        return if ← Context.branchProves found required construct then
          Context.Verdict.guarded else .undecided)) := by
    simp [h.branchProves_run]
  unfold RawUnit.verdict Context.verdict
  rw [h.node, Run.some_bind]
  cases ctx.tree.node construct with
  | conditionalAccess receiver rest => exact h.accessVerdict_run found child receiver rest
  | lambda params body isAsync =>
      rw [Node.map_lambda]
      exact h.lambdaVerdict_run found required construct
  | method name returnType params body isAsync => rfl
  | compilationUnit members => rfl
  | localDeclaration name type init =>
      rw [Node.map_localDeclaration]
      exact hBranch
  | returnStatement value =>
      rw [Node.map_returnStatement]
      exact hBranch
  | ifStatement condition thenBranch elseBranch =>
      rw [Node.map_ifStatement]
      exact hBranch
  | _ => exact hBranch

theorem ascend_run (found : ctx.UseSite) (required : State) (child : ctx.Id)
    (constructs : List ctx.Id) :
    raw.ascend (site found) required child (constructs.map Fin.val) =
      some (ctx.answer (Context.ascend found required child constructs)) := by
  induction constructs generalizing child with
  | nil => rfl
  | cons construct rest ih =>
      simp only [List.map_cons, RawUnit.ascend, Context.ascend, h.verdict_run, Run.some_bind,
        Context.answer, Inquiry.answer_bind]
      cases (Context.verdict found required child construct).answer ctx.config.classify with
      | guarded => rfl
      | unguarded => rfl
      | undecided => exact ih construct

/-- **The walk up from a use site ends.** -/
theorem isGuardedForAccess_run (found : ctx.UseSite) :
    raw.isGuardedForAccess (site found) =
      some (ctx.answer (Context.isGuardedForAccess found)) := by
  unfold RawUnit.isGuardedForAccess
  show raw.ancestors found.node >>= _ = _
  rw [h.ancestors_run, Run.some_bind]
  exact h.ascend_run found found.required found.node _

/-! ### Single reads -/

theorem report_run (rule : Rule) (i : ctx.Id) (arguments : List String) :
    raw.report rule i arguments = some (ctx.report rule i arguments) := by
  unfold RawUnit.report Context.report
  rw [h.span, h.file]
  rfl

theorem isFactoryCall_run (i : ctx.Id) : raw.isFactoryCall i = some (ctx.isFactoryCall i) := by
  unfold RawUnit.isFactoryCall Context.isFactoryCall
  simp only [h.stripParens_run, h.memberCall_run, Run.some_bind, h.config]
  cases ctx.memberCall? (ctx.tree.stripParens i) <;> rfl

theorem isExempt_run (found : ctx.UseSite) :
    raw.isExempt (site found) = some (ctx.isExempt found) := by
  unfold RawUnit.isExempt Context.isExempt
  simp only [site, h.isFactoryCall_run, h.projection_run, Run.some_bind, Option.isSome_map]
  cases ctx.isFactoryCall found.receiver <;> rfl

theorem directAccess_run (i : ctx.Id) :
    raw.directAccess? i = some (ctx.answer (ctx.directAccess? i)) := by
  unfold RawUnit.directAccess? Context.directAccess?
  simp only [h.useSite_run, Run.some_bind, Inquiry.answer_bind, Context.answer]
  cases (ctx.useSite? i).answer ctx.config.classify with
  | none => rfl
  | some found =>
      simp only [Option.map_some, h.isExempt_run, Run.some_bind]
      cases ctx.isExempt found with
      | true => rfl
      | false =>
          simp only [h.isGuardedForAccess_run, Run.some_bind, Inquiry.answer_bind, Context.answer,
            Bool.false_eq_true, if_false]
          cases (Context.isGuardedForAccess found).answer ctx.config.classify with
          | true => rfl
          | false =>
              simp only [site, h.config, h.render_run, h.report_run, Run.some_bind]
              cases ctx.config.families[found.family]? <;> rfl

/-! ### Comparisons with null -/

theorem isNull_run (i : ctx.Id) : raw.isNull i = some (ctx.isNull i) := by
  unfold RawUnit.isNull Context.isNull
  simp only [h.stripParens_run, h.node, Run.some_bind]
  cases ctx.tree.node (ctx.tree.stripParens i) with
  | literal value => cases value <;> rfl
  | _ => simp

theorem otherThanNull_run (left right : ctx.Id) :
    raw.otherThanNull? left right = some ((ctx.otherThanNull? left right).map Fin.val) := by
  unfold RawUnit.otherThanNull? Context.otherThanNull?
  simp only [h.isNull_run, Run.some_bind]
  cases ctx.isNull left <;> cases ctx.isNull right <;> rfl

theorem nullTest_run (i : ctx.Id) :
    raw.nullTest? i = some ((ctx.nullTest? i).map (Prod.map Fin.val id)) := by
  unfold RawUnit.nullTest? Context.nullTest?
  rw [h.node, Run.some_bind]
  cases ctx.tree.node i with
  | binary op left right =>
      cases op with
      | eq =>
          simp only [Node.map_binary, h.otherThanNull_run, Run.some_bind]
          cases ctx.otherThanNull? left right <;> rfl
      | notEq =>
          simp only [Node.map_binary, h.otherThanNull_run, Run.some_bind]
          cases ctx.otherThanNull? left right <;> rfl
      | _ => rfl
  | isPattern operand pattern => cases pattern <;> rfl
  | _ => simp

theorem nullComparison_run (i : ctx.Id) :
    raw.nullComparison? i = some (ctx.answer (ctx.nullComparison? i)) := by
  unfold RawUnit.nullComparison? Context.nullComparison?
  rw [h.nullTest_run, Run.some_bind]
  cases ctx.nullTest? i with
  | none => rfl
  | some test =>
      obtain ⟨operand, state⟩ := test
      simp only [Option.map_some, Prod.map_apply, id, h.stripParens_run, h.classify_eq,
        Run.some_bind, Inquiry.answer_bind, Context.answer]
      cases ((ctx.classify (ctx.tree.stripParens operand)).answer
        ctx.config.classify).wrapper? with
      | none => rfl
      | some index =>
          simp only [h.config, h.render_run, h.report_run, Run.some_bind]
          cases ctx.config.families[index]? <;> rfl

/-! ### Reads in projections -/

theorem provesElements_run (i : ctx.Id) (state : State) :
    raw.provesElements i state = some (ctx.answer (ctx.provesElements i state)) := by
  unfold RawUnit.provesElements Context.provesElements
  rw [h.node, Run.some_bind]
  cases ctx.tree.node i with
  | lambda params body isAsync =>
      cases params with
      | nil => rfl
      | cons param params =>
          simp only [Node.map_lambda, List.map_cons, h.node, Run.some_bind,
            Node.isStatement_map]
          cases (ctx.tree.node body).isStatement with
          | true => rfl
          | false =>
              simp only [h.shape_run, Run.some_bind, Shape.facts_map, Bool.false_eq_true, if_false,
                Context.facts, Inquiry.answer_bind, Inquiry.answer_pure, Context.answer]
              apply Run.anyM_map
              intro fact _
              simp only [Fact.map, h.stripParens_run, Run.some_bind, h.sameSymbol_eq]
              show (if (fact.branch = .whenTrue && fact.impliedState? = some state) = true then _
                else _) = _
              cases (fact.branch = .whenTrue && fact.impliedState? = some state : Bool) <;> rfl
  | _ => simp

omit h in
theorem isFiltered_of_none {i : ctx.Id} {state : State}
    (hCall : ctx.memberCall? (ctx.tree.stripParens i) = none) :
    ctx.answer (ctx.isFiltered i state) = false := by
  rw [Context.isFiltered]
  split
  · rfl
  · next found hFound => simp [hCall] at hFound

omit h in
/-- An operator filters elements itself, or hands on those that have passed a filter before. -/
theorem isFiltered_of_call {i : ctx.Id} {state : State} {found : ctx.MemberCall}
    (hCall : ctx.memberCall? (ctx.tree.stripParens i) = some found) :
    ctx.answer (ctx.isFiltered i state) =
      if ctx.config.pipeline.isFilter found.method then
        (found.args.any fun arg => ctx.answer (ctx.provesElements arg.value state)) ||
          ctx.answer (ctx.isFiltered found.receiver state)
      else if ctx.config.pipeline.isPassthrough found.method then
        ctx.answer (ctx.isFiltered found.receiver state)
      else false := by
  rw [Context.isFiltered]
  split
  · next hNone => simp [hCall] at hNone
  · next found' hFound =>
      obtain rfl : found = found' := Option.some.inj (hCall.symm.trans hFound)
      by_cases hFilter : ctx.config.pipeline.isFilter found.method = true
      · simp only [hFilter, if_true, Inquiry.answer_bind, Context.answer_anyM]
        split <;> simp_all
      · simp only [hFilter, Bool.false_eq_true, if_false]
        split <;> rfl

/-- **The chain of calls before a projection ends.** -/
theorem isFiltered_run (i : ctx.Id) (state : State) :
    raw.isFiltered i state = some (ctx.answer (ctx.isFiltered i state)) := by
  have hArgs : ∀ found : ctx.MemberCall,
      ((call found).args.anyM fun arg => raw.provesElements arg.value state) =
        some (found.args.any fun arg => ctx.answer (ctx.provesElements arg.value state)) :=
    fun found => Run.anyM_map fun arg _ => h.provesElements_run arg.value state
  induction i using Context.isFiltered.induct ctx with
  | case1 i hCall =>
      refine Run.fix_of_no_call fun self => ?_
      rw [isFiltered_of_none hCall]
      simp only [h.stripParens_run, h.memberCall_run, Run.some_bind, hCall]
      rfl
  | case2 i found hCall hFilter ih =>
      refine Run.fix_of_call ih fun self hSelf => ?_
      rw [isFiltered_of_call hCall]
      simp only [h.stripParens_run, h.memberCall_run, Run.some_bind, hCall, Option.map_some, hArgs]
      simp only [call, h.config, hFilter, if_true, hSelf]
      cases found.args.any fun arg => ctx.answer (ctx.provesElements arg.value state) <;> rfl
  | case3 i found hCall hFilter hPass ih =>
      refine Run.fix_of_call ih fun self hSelf => ?_
      rw [isFiltered_of_call hCall]
      simp only [h.stripParens_run, h.memberCall_run, Run.some_bind, hCall, Option.map_some]
      simp only [call, h.config, hFilter, hPass, Bool.false_eq_true, if_true, if_false, hSelf]
  | case4 i found hCall hFilter hPass =>
      refine Run.fix_of_no_call fun self => ?_
      rw [isFiltered_of_call hCall]
      simp only [h.stripParens_run, h.memberCall_run, Run.some_bind, hCall, Option.map_some]
      simp only [call, h.config, hFilter, hPass, Bool.false_eq_true, if_false]
      rfl

theorem projectionAccess_run (i : ctx.Id) :
    raw.projectionAccess? i = some (ctx.answer (ctx.projectionAccess? i)) := by
  unfold RawUnit.projectionAccess? Context.projectionAccess?
  simp only [h.useSite_run, Run.some_bind, Inquiry.answer_bind, Context.answer]
  cases (ctx.useSite? i).answer ctx.config.classify with
  | none => rfl
  | some found =>
      have hProjection : raw.projection? (site found).receiver =
          some ((ctx.projection? found.receiver).map (call ·.1)) := h.projection_run found.receiver
      simp only [Option.map_some, hProjection, Run.some_bind]
      cases ctx.projection? found.receiver with
      | none => rfl
      | some projection =>
          obtain ⟨made, lambda⟩ := projection
          simp only [Option.map_some, h.isGuardedForAccess_run, Run.some_bind, Inquiry.answer_bind,
            Context.answer]
          cases (Context.isGuardedForAccess found).answer ctx.config.classify with
          | true => rfl
          | false =>
              simp only [call, site, h.isFiltered_run, Run.some_bind, Inquiry.answer_bind,
                Context.answer, Bool.false_eq_true, if_false]
              cases (ctx.isFiltered made.receiver found.required).answer ctx.config.classify with
              | true => rfl
              | false =>
                  simp only [h.config, h.render_run, h.report_run, Run.some_bind]
                  cases ctx.config.families[found.family]? <;> rfl

/-! ### Spelled-out defaults -/

omit h in
theorem ternaryParts_map (shape : Shape ctx.Id) (whenTrue whenFalse : ctx.Id) :
    ternaryParts? (shape.map Fin.val) whenTrue.val whenFalse.val =
      (ctx.ternaryParts? shape whenTrue whenFalse).map
        (Prod.map Fin.val (Prod.map Fin.val Fin.val)) := by
  unfold RawUnit.ternaryParts? Context.ternaryParts?
  rw [Shape.subject?_map, Context.Transfer.okBranch_map]
  cases shape.subject? with
  | none => rfl
  | some subject =>
      cases Context.okBranch? shape with
      | none => rfl
      | some branch => cases branch <;> rfl

theorem ternary_run (i : ctx.Id) : raw.ternary? i = some (ctx.answer (ctx.ternary? i)) := by
  unfold RawUnit.ternary? Context.ternary?
  rw [h.node, Run.some_bind]
  cases ctx.tree.node i with
  | conditional condition whenTrue whenFalse =>
      simp only [Node.map_conditional, h.shape_run, Run.some_bind, ternaryParts_map,
        Inquiry.answer_bind]
      cases ctx.ternaryParts? (ctx.answer (ctx.shape condition)) whenTrue whenFalse with
      | none => rfl
      | some parts =>
          obtain ⟨subject, payload, fallback⟩ := parts
          simp only [Option.map_some, Prod.map_apply, h.stripParens_run, h.node, Run.some_bind]
          cases ctx.tree.node (ctx.tree.stripParens payload) with
          | memberAccess receiver member =>
              simp only [Node.map_memberAccess, h.wrapperFamily_run, Run.some_bind,
                Inquiry.answer_bind, Context.answer]
              cases (ctx.wrapperFamily? subject).answer ctx.config.classify with
              | none => rfl
              | some index =>
                  simp only [h.config]
                  cases ctx.config.families[index]? with
                  | none => rfl
                  | some family =>
                      simp only [h.sameLocation_run, h.render_run, h.report_run, Run.some_bind]
                      by_cases hPayload : family.payload? .ok = some member
                      · cases ctx.sameLocation receiver subject <;> simp [hPayload]
                      · simp [hPayload]
          | _ => simp
  | _ => simp

/-- **Every rule ends at every node,** and finds there what the analysis finds. -/
theorem inspect_run (rule : Rule) (i : ctx.Id) :
    raw.inspect rule i = some (ctx.answer (rule.inspect ctx i)) := by
  cases rule with
  | directAccess => exact h.directAccess_run i
  | ternary => exact h.ternary_run i
  | projection => exact h.projectionAccess_run i
  | nullComparison => exact h.nullComparison_run i

end AcceptedAs

end

end RawUnit

end StateGuard
