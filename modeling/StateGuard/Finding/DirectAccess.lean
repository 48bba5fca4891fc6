import StateGuard.Finding.Diagnostic
import StateGuard.Guard.Walk
import StateGuard.Syntax.Render

/-!
# Unguarded reads

A payload is read, and nothing around the read proves the state it needs. The result of a factory
that is known not to fail may be read directly, and elements of a projection are left to the rule
about projections.
-/

namespace StateGuard.Context

variable (ctx : Context)

/-- A diagnostic about a node. -/
def report (rule : Rule) (i : ctx.Id) (arguments : List String) : Diagnostic :=
  ⟨rule, ctx.tree.file, ctx.tree.span i, i.val, arguments⟩

/-- Whether an expression calls a factory that is known not to fail. -/
def isFactoryCall (i : ctx.Id) : Bool :=
  match ctx.memberCall? (ctx.tree.stripParens i) with
  | some call => ctx.config.isNonThrowingFactory call.method
  | none => false

/-- Whether the rule about single reads leaves a site alone. -/
def isExempt (site : ctx.UseSite) : Bool :=
  ctx.isFactoryCall site.receiver || (ctx.projection? site.receiver).isSome

/-- The finding of an unguarded read. -/
def directAccess? (i : ctx.Id) : Inquiry (Option Diagnostic) := do
  match ← ctx.useSite? i with
  | none => return none
  | some site =>
    if ctx.isExempt site then return none
    else if ← isGuardedForAccess site then return none
    else
      return ctx.config.families[site.family]?.map fun family =>
        ctx.report .directAccess i
          [site.member, ctx.tree.render site.receiver, family.discriminant site.required]

end StateGuard.Context
