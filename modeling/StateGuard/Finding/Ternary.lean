import StateGuard.Finding.DirectAccess

/-!
# Spelled-out defaults

A conditional expression that reads the ok payload when there is one and falls back to something
else when there is not. It is reported although it is guarded, since one call says the same.
-/

namespace StateGuard.Context

variable (ctx : Context)

/-- The branch of a condition in which its subject is ok. -/
def okBranch? {ι : Type} (shape : Shape ι) : Option Branch :=
  (shape.facts.find? fun fact => fact.impliedState? = some .ok).map (·.branch)

/-- The parts of a conditional expression over one discriminant: the subject, the value when the
subject is ok, and the value when it is not. -/
def ternaryParts? (shape : Shape ctx.Id) (whenTrue whenFalse : ctx.Id) :
    Option (ctx.Id × ctx.Id × ctx.Id) := do
  let subject ← shape.subject?
  match ← okBranch? shape with
  | .whenTrue => return (subject, whenTrue, whenFalse)
  | .whenFalse => return (subject, whenFalse, whenTrue)

/-- The finding of a spelled-out default. -/
def ternary? (i : ctx.Id) : Inquiry (Option Diagnostic) := do
  match ctx.tree.node i with
  | .conditional condition whenTrue whenFalse =>
    match ctx.ternaryParts? (← ctx.shape condition) whenTrue whenFalse with
    | none => return none
    | some (subject, payload, fallback) =>
      match ctx.tree.node (ctx.tree.stripParens payload) with
      | .memberAccess receiver member =>
        match ← ctx.wrapperFamily? subject with
        | none => return none
        | some index =>
          match ctx.config.families[index]? with
          | none => return none
          | some family =>
            if family.payload? .ok = some member && ctx.sameLocation receiver subject then
              return some <| ctx.report .ternary i
                [ctx.tree.render i, ctx.tree.render subject, ctx.tree.render fallback]
            else return none
      | _ => return none
  | _ => return none

end StateGuard.Context
