import StateGuard.Finding.DirectAccess

/-!
# Comparisons with null

A wrapper value is never null, so comparing it with null says nothing about its state. An
asynchronous wrapper can be null and is left alone.
-/

namespace StateGuard.Context

variable (ctx : Context)

/-- Whether an expression is the null literal. -/
def isNull (i : ctx.Id) : Bool :=
  match ctx.tree.node (ctx.tree.stripParens i) with
  | .literal .null => true
  | _ => false

/-- The side of a comparison that is compared with null. -/
def otherThanNull? (left right : ctx.Id) : Option ctx.Id :=
  match ctx.isNull left, ctx.isNull right with
  | false, true => some left
  | true, false => some right
  | _, _ => none

/-- The operand of a comparison with null, and the state that the test asks about: null stands for
the absence of a value. -/
def nullTest? (i : ctx.Id) : Option (ctx.Id × State) :=
  match ctx.tree.node i with
  | .binary .eq left right => (ctx.otherThanNull? left right).map (·, .notOk)
  | .binary .notEq left right => (ctx.otherThanNull? left right).map (·, .ok)
  | .isPattern operand .null => some (operand, .notOk)
  | .isPattern operand .notNull => some (operand, .ok)
  | _ => none

/-- The finding of a comparison with null. -/
def nullComparison? (i : ctx.Id) : Inquiry (Option Diagnostic) := do
  match ctx.nullTest? i with
  | none => return none
  | some (operand, state) =>
    match (← ctx.classify (ctx.tree.stripParens operand)).wrapper? with
    | none => return none
    | some index =>
      return ctx.config.families[index]?.map fun family =>
        ctx.report .nullComparison i
          [ctx.tree.render i, family.name ++ " value", family.discriminant state]

end StateGuard.Context
