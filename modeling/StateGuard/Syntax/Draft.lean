import StateGuard.Syntax.Tree

/-!
# Trees under construction

A draft collects parts bottom-up and becomes a tree when a root is chosen. A node added without a
span of its own takes one column of the current line: the column of its position, so that no two
such nodes share a span.
-/

namespace StateGuard

/-- The parts of a tree put together so far. -/
structure Draft where
  file : String
  parts : Array Part := #[]
  /-- The line of nodes added without a span. -/
  line : Nat := 1

namespace Draft

/-- The number of parts. -/
def size (draft : Draft) : Nat := draft.parts.size

/-- Go on at another line. -/
def atLine (draft : Draft) (line : Nat) : Draft := { draft with line := line }

/-- Add a node with its span. The result is its position. -/
def push (draft : Draft) (node : Node Nat) (span : Span) : Nat × Draft :=
  (draft.parts.size, { draft with parts := draft.parts.push ⟨node, span⟩ })

/-- Add a node on the current line. -/
def add (draft : Draft) (node : Node Nat) : Nat × Draft :=
  draft.push node ⟨⟨draft.line, draft.size⟩, ⟨draft.line, draft.size + 1⟩⟩

/-- Add `receiver?.member`. -/
def conditionalMember (draft : Draft) (receiver : Nat) (member : String) : Nat × Draft :=
  let (binding, draft) := draft.add (.memberBinding member)
  draft.add (.conditionalAccess receiver binding)

/-- Add a call with positional arguments. -/
def call (draft : Draft) (callee : Nat) (args : List Nat) : Nat × Draft :=
  draft.add (.invocation callee (args.map fun value => ⟨none, value⟩))

/-- Add `receiver.method(args)`. -/
def methodCall (draft : Draft) (receiver : Nat) (method : String) (args : List Nat) :
    Nat × Draft :=
  let (callee, draft) := draft.add (.memberAccess receiver method)
  draft.call callee args

/-- Add `name(args)`. -/
def freeCall (draft : Draft) (name : String) (args : List Nat) : Nat × Draft :=
  let (callee, draft) := draft.add (.identifier name)
  draft.call callee args

/-- Add a lambda of one parameter without a type. -/
def simpleLambda (draft : Draft) (param : String) (body : Nat) : Nat × Draft :=
  let (param, draft) := draft.add (.parameter param none)
  draft.add (.lambda [param] body false)

/-- The tree with the given root. -/
def build (draft : Draft) (root : Nat) : Except ArenaError Tree :=
  Tree.ofParts draft.file draft.parts root

end Draft

end StateGuard
