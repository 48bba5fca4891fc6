import StateGuard.Guard.Context
import StateGuard.Guard.Shape

/-!
# Recognizing conditions

The shape of a condition in a tree, and from it the facts that the condition proves. Parentheses
are transparent. A discriminant is read by a member access or a conditional access on a wrapper.
-/

namespace StateGuard.Context

variable (ctx : Context)

/-- The receiver and member of an expression that reads a single member. -/
def memberRead? (i : ctx.Id) : Option (ctx.Id × String) :=
  match ctx.tree.node (ctx.tree.stripParens i) with
  | .memberAccess receiver member => some (receiver, member)
  | .conditionalAccess receiver rest =>
    match ctx.tree.node rest with
    | .memberBinding member => some (receiver, member)
    | _ => none
  | _ => none

/-- The subject and state of an expression that reads a discriminant. -/
def discriminant? (i : ctx.Id) : Inquiry (Option (ctx.Id × State)) := do
  match ctx.memberRead? i with
  | none => return none
  | some (subject, member) =>
    match ← ctx.wrapperFamily? subject with
    | none => return none
    | some family =>
      match ctx.config.role? family member with
      | some (.discriminant state) => return some (subject, state)
      | _ => return none

/-- The value of a boolean literal. -/
def boolLiteral? (i : ctx.Id) : Option Bool :=
  match ctx.tree.node (ctx.tree.stripParens i) with
  | .literal (.bool value) => some value
  | _ => none

/-- The shape of a test that a discriminant has a certain value. -/
def literalTest (operand : ctx.Id) (expected : Bool) : Inquiry (Shape ctx.Id) := do
  match ← ctx.discriminant? operand with
  | some (subject, state) => return .literal subject state expected
  | none => return .unrecognized

/-- The shape of an equality, or of an inequality: one side must be a boolean literal. -/
def comparison (isEquality : Bool) (left right : ctx.Id) : Inquiry (Shape ctx.Id) :=
  match ctx.boolLiteral? left, ctx.boolLiteral? right with
  | none, some value => ctx.literalTest left (value == isEquality)
  | some value, none => ctx.literalTest right (value == isEquality)
  | _, _ => pure .unrecognized

/-- Whether a node is an out variable. -/
def isOutVariable (i : ctx.Id) : Bool :=
  match ctx.tree.node i with
  | .outVariable .. => true
  | _ => false

/-- The shape of a call: that of a try accessor, or none. -/
def tryCall (i : ctx.Id) : Inquiry (Shape ctx.Id) := do
  match ctx.memberCall? i with
  | none => return .unrecognized
  | some call =>
    match ← ctx.wrapperFamily? call.receiver with
    | none => return .unrecognized
    | some family =>
      match ctx.config.role? family call.method with
      | some (.tryAccessor state) =>
        return .tryAccessor call.receiver state ((call.args.map (·.value)).find? ctx.isOutVariable)
      | _ => return .unrecognized

/-- The shape of a condition. -/
def shape (i : ctx.Id) : Inquiry (Shape ctx.Id) :=
  match _h : ctx.tree.node (ctx.tree.stripParens i) with
  | .unary .not operand => return (← shape operand).negate
  | .binary .and left right => return .compound .conjunction (← shape left) (← shape right)
  | .binary .or left right => return .compound .disjunction (← shape left) (← shape right)
  | .binary .eq left right => ctx.comparison true left right
  | .binary .notEq left right => ctx.comparison false left right
  | .isPattern operand (.literal (.bool value)) => ctx.literalTest operand value
  | .invocation .. => ctx.tryCall (ctx.tree.stripParens i)
  | _ => do
    match ← ctx.discriminant? (ctx.tree.stripParens i) with
    | some (subject, state) => return .discriminant subject state
    | none => return .unrecognized
termination_by ctx.tree.height i
decreasing_by
  all_goals exact Arena.height_lt_of_mem_children_stripParens (by simp [_h, Node.children])

/-- The facts that a condition proves. -/
def facts (condition : ctx.Id) : Inquiry (List (Fact ctx.Id)) :=
  return (← ctx.shape condition).facts

/-- The facts that a condition proves about the place an expression reads. -/
def factsAbout (condition subject : ctx.Id) : Inquiry (List (Fact ctx.Id)) :=
  return (← ctx.facts condition).filter fun fact => ctx.sameLocation fact.subject subject

end StateGuard.Context
