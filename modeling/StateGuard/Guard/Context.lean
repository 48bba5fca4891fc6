import StateGuard.Guard.Inquiry
import StateGuard.Semantics.SourceUnit

/-!
# Context of an analysis

A unit together with the configuration, and the questions about single nodes that all rules ask.
-/

namespace StateGuard

/-- A unit under analysis. -/
structure Context extends SourceUnit where
  config : Config

namespace Context

/-- A node of the tree under analysis. -/
abbrev Id (ctx : Context) : Type := Fin ctx.tree.size

/-- The context of a unit. -/
def ofUnit (unit : SourceUnit) (config : Config) : Context := { unit with config }

variable (ctx : Context)

/-- The classification of the type of a node. -/
def classify (i : ctx.Id) : Inquiry Classification :=
  match ctx.oracle.typeOf i with
  | none => pure .unrelated
  | some type => .classify type

/-- The family of the wrapper that an expression evaluates to: its type is a wrapper, or it waits
for an asynchronous wrapper around one. -/
def wrapperFamily? (i : ctx.Id) : Inquiry (Option Nat) := do
  match (← ctx.classify (ctx.tree.stripParens i)).wrapper? with
  | some family => return some family
  | none =>
    match ctx.tree.node (ctx.tree.stripParens i) with
    | .await operand => return (← ctx.classify operand).asyncWrapper?
    | _ => return none

/-- Whether two expressions read the same place. -/
def sameLocation (a b : ctx.Id) : Bool := StateGuard.sameLocation ctx.tree.toArena ctx.oracle a b

/-- A call of a method on a receiver. -/
structure MemberCall where
  invocation : ctx.Id
  receiver : ctx.Id
  method : String
  args : List (Argument ctx.Id)

/-- A node as the call of a method on a receiver. -/
def memberCall? (i : ctx.Id) : Option ctx.MemberCall :=
  match ctx.tree.node i with
  | .invocation callee args =>
    match ctx.tree.node (ctx.tree.stripParens callee) with
    | .memberAccess receiver method => some ⟨i, receiver, method, args⟩
    | _ => none
  | _ => none

/-- The member call of which a lambda is an argument, with that argument and its position. -/
def callTaking? (lambda : ctx.Id) : Option (ctx.MemberCall × Argument ctx.Id × Nat) := do
  let call ← ctx.memberCall? (← ctx.tree.parent lambda)
  let (arg, position) ← call.args.zipIdx.find? fun (arg, _) => arg.value = lambda
  return (call, arg, position)

variable {ctx}

/-- The receiver of a member call lies below the call. -/
theorem height_receiver_lt {i : ctx.Id} {call : ctx.MemberCall}
    (h : ctx.memberCall? i = some call) : ctx.tree.height call.receiver < ctx.tree.height i := by
  unfold memberCall? at h
  split at h
  · next callee args hNode =>
      split at h
      · next receiver method hCallee =>
          simp only [Option.some.injEq] at h
          subst h
          have hCalleeLt : ctx.tree.height callee < ctx.tree.height i :=
            Arena.height_lt_of_mem_children (by simp [hNode, Node.children])
          have hReceiverLt : ctx.tree.height receiver < ctx.tree.height callee :=
            Arena.height_lt_of_mem_children_stripParens (by simp [hCallee, Node.children])
          exact Nat.lt_trans hReceiverLt hCalleeLt
      · simp at h
  · simp at h

end Context

end StateGuard
