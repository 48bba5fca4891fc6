import StateGuard.Finding.DirectAccess

/-!
# Reads in projections

A projection reads the payload of its elements, and neither a guard inside its function nor a filter
before it proves their state. The chain before a projection is followed through operators that keep
elements as they are; any other operator ends the search.
-/

namespace StateGuard.Context

variable (ctx : Context)

/-- Whether an argument is a predicate that holds only for elements in a state: a lambda with an
expression for its body, from which a fact about its first parameter follows. -/
def provesElements (i : ctx.Id) (state : State) : Inquiry Bool :=
  match ctx.tree.node i with
  | .lambda (param :: _) body _ =>
    if (ctx.tree.node body).isStatement then return false
    else
      return (← ctx.facts body).any fun fact =>
        fact.branch = .whenTrue && fact.impliedState? = some state &&
          ctx.oracle.sameSymbol (ctx.tree.stripParens fact.subject) param
  | _ => return false

/-- Whether the elements of a sequence have passed a filter for a state. -/
def isFiltered (i : ctx.Id) (state : State) : Inquiry Bool :=
  match _h : ctx.memberCall? (ctx.tree.stripParens i) with
  | none => return false
  | some call => do
    if ctx.config.pipeline.isFilter call.method then
      if ← call.args.anyM fun arg => ctx.provesElements arg.value state then return true
      else isFiltered call.receiver state
    else if ctx.config.pipeline.isPassthrough call.method then isFiltered call.receiver state
    else return false
termination_by ctx.tree.height i
decreasing_by
  all_goals
    exact Nat.lt_of_lt_of_le (height_receiver_lt _h) (Arena.height_stripParens_le i)

/-- The finding of an unguarded read in a projection. -/
def projectionAccess? (i : ctx.Id) : Inquiry (Option Diagnostic) := do
  match ← ctx.useSite? i with
  | none => return none
  | some site =>
    match ctx.projection? site.receiver with
    | none => return none
    | some (call, _) =>
      if ← isGuardedForAccess site then return none
      else if ← ctx.isFiltered call.receiver site.required then return none
      else
        return ctx.config.families[site.family]?.map fun family =>
          ctx.report .projection i
            [site.member, ctx.tree.render site.receiver, call.method,
             family.discriminant site.required]

end StateGuard.Context
