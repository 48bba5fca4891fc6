import StateGuard.Guard.Branching
import StateGuard.Guard.Recognize
import StateGuard.Guard.UseSite

/-!
# Guards around a use site

The walk from a use site upwards. A read is guarded when some construct around it makes sure that it
only happens in the required state:

* a branch whose condition proves that state of the receiver;
* a conditional access on the receiver;
* a lambda that a method of the receiver calls only in that state.

Any other lambda ends the walk, unless the configuration lets guards reach through, and so does a
method.
-/

namespace StateGuard.Context

variable (ctx : Context)

/-- What one construct around a use site decides. -/
inductive Verdict where
  | guarded
  | unguarded
  | undecided
  deriving DecidableEq, Repr, Inhabited

variable {ctx}

/-- Whether a branch around the site proves the required state. -/
def branchProves (site : ctx.UseSite) (required : State) (construct : ctx.Id) : Inquiry Bool := do
  match ctx.tree.condition? construct with
  | none => return false
  | some condition =>
    return (← ctx.factsAbout condition site.receiver).any fun fact =>
      fact.impliedState? = some required && ctx.tree.isUnder site.node construct fact.branch

/-- What a lambda around the site decides. -/
def lambdaVerdict (site : ctx.UseSite) (required : State) (lambda : ctx.Id) : Verdict :=
  let isCallback :=
    match ctx.callTaking? lambda with
    | some (call, arg, position) =>
      ctx.config.callContexts.callbackState? call.method arg.name position = some required &&
        ctx.sameLocation call.receiver site.receiver
    | none => false
  if isCallback then .guarded
  else if ctx.config.analysis.crossLambdaBoundaries then .undecided
  else .unguarded

/-- What a conditional access around the site decides, given its parts and the part the site is
in. -/
def accessVerdict (site : ctx.UseSite) (child receiver rest : ctx.Id) : Verdict :=
  if child = rest && (receiver = site.receiver || ctx.sameLocation receiver site.receiver) then
    .guarded
  else .undecided

/-- What a construct around the site decides, given the part of it the site is in. -/
def verdict (site : ctx.UseSite) (required : State) (child construct : ctx.Id) :
    Inquiry Verdict :=
  match ctx.tree.node construct with
  | .conditionalAccess receiver rest => return accessVerdict site child receiver rest
  | .lambda .. => return lambdaVerdict site required construct
  | .method .. => return .unguarded
  | .compilationUnit .. => return .unguarded
  | _ => return if ← branchProves site required construct then .guarded else .undecided

/-- Walk up the constructs around the site until one decides. -/
def ascend (site : ctx.UseSite) (required : State) (child : ctx.Id) :
    List ctx.Id → Inquiry Bool
  | [] => return false
  | construct :: rest => do
    match ← verdict site required child construct with
    | .guarded => return true
    | .unguarded => return false
    | .undecided => ascend site required construct rest

/-- Whether a site is reached only when a predicate of its receiver has the given truth value. -/
def isGuarded (site : ctx.UseSite) (predicate : Predicate) (truth : Bool) : Inquiry Bool :=
  match predicate.impliedState? truth with
  | none => return false
  | some required => ascend site required site.node (ctx.tree.ancestors site.node)

/-- Whether a site is reached only in the state it requires. -/
def isGuardedForAccess (site : ctx.UseSite) : Inquiry Bool :=
  isGuarded site (.discriminant site.required) true

end StateGuard.Context
