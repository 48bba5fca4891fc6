import StateGuard.Guard.Context

/-!
# Use sites

The places where the payload of a wrapper is read, and the lambdas around them.
-/

namespace StateGuard.Context

variable (ctx : Context)

/-- The receiver that a member binding reads from: that of the nearest conditional access whose
second part contains the binding. -/
def bindingReceiver? (i : ctx.Id) : Option ctx.Id :=
  (ctx.tree.ancestors i).findSome? fun ancestor =>
    match ctx.tree.node ancestor with
    | .conditionalAccess receiver rest =>
      if ctx.tree.isWithin i rest then some receiver else none
    | _ => none

/-- A read of a payload. -/
structure UseSite where
  /-- The node that reads. -/
  node : ctx.Id
  member : String
  /-- The expression whose payload is read. -/
  receiver : ctx.Id
  /-- The family of the receiver. -/
  family : Nat
  /-- The state in which the read is allowed. -/
  required : State

/-- The receiver and member of a node that reads a member. -/
def readMember? (i : ctx.Id) : Option (ctx.Id × String) :=
  match ctx.tree.node i with
  | .memberAccess receiver member => some (receiver, member)
  | .memberBinding member => (ctx.bindingReceiver? i).map (·, member)
  | _ => none

/-- A node as a read of a payload. -/
def useSite? (i : ctx.Id) : Inquiry (Option ctx.UseSite) := do
  match ctx.readMember? i with
  | none => return none
  | some (receiver, member) =>
    match ← ctx.wrapperFamily? receiver with
    | none => return none
    | some family =>
      match ctx.config.role? family member with
      | some (.payload state) => return some ⟨i, member, receiver, family, state⟩
      | _ => return none

/-- The lambda around an expression that has it as a parameter, and the position of that
parameter. -/
def lambdaParameter? (i : ctx.Id) : Option (ctx.Id × Nat) :=
  match ctx.tree.node (ctx.tree.stripParens i) with
  | .identifier _ =>
    (ctx.tree.ancestors (ctx.tree.stripParens i)).findSome? fun ancestor =>
      match ctx.tree.node ancestor with
      | .lambda params _ _ =>
        (params.findIdx? fun param => ctx.oracle.sameSymbol param (ctx.tree.stripParens i)).map
          (ancestor, ·)
      | _ => none
  | _ => none

/-- The projection whose elements an expression stands for, and the function it hands them to. -/
def projection? (i : ctx.Id) : Option (ctx.MemberCall × ctx.Id) :=
  match ctx.lambdaParameter? i with
  | some (lambda, 0) =>
    match ctx.callTaking? lambda with
    | some (call, _) =>
      if ctx.config.pipeline.isProjection call.method then some (call, lambda) else none
    | none => none
  | _ => none

end StateGuard.Context
