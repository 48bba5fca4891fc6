import StateGuard.TypeRef

/-!
# Syntax nodes

One construct of the checked language. A node names its parts by references of some type `ι`: the
numbers of a table of nodes, the identifiers of one accepted tree, or whole terms. The order of
`Node.children` is source order, and everything that walks a tree follows it.
-/

namespace StateGuard

/-- A literal value. Integers are signed 64-bit. -/
inductive Literal where
  | bool (value : Bool)
  | null
  | int (value : Int)
  | str (value : String)
  deriving DecidableEq, Repr, Inhabited

/-- A sign before an expression. -/
inductive UnaryOp where
  | not
  | negate
  deriving DecidableEq, Repr, Inhabited

/-- An operator between two expressions. -/
inductive BinaryOp where
  | eq
  | notEq
  | and
  | or
  | lt
  | ltE
  | gt
  | gtE
  | add
  | sub
  | mul
  | div
  deriving DecidableEq, Repr, Inhabited

/-- The spelling of a sign. -/
def UnaryOp.symbol : UnaryOp → String
  | .not => "!"
  | .negate => "-"

/-- The spelling of an operator. -/
def BinaryOp.symbol : BinaryOp → String
  | .eq => "=="
  | .notEq => "!="
  | .and => "&&"
  | .or => "||"
  | .lt => "<"
  | .ltE => "<="
  | .gt => ">"
  | .gtE => ">="
  | .add => "+"
  | .sub => "-"
  | .mul => "*"
  | .div => "/"

/-- What an `is` test compares with. -/
inductive Pattern where
  | null
  | notNull
  | literal (value : Literal)
  deriving DecidableEq, Repr, Inhabited

/-- An argument of a call, with the parameter name it may be given by. -/
structure Argument (ι : Type) where
  name : Option String
  value : ι
  deriving DecidableEq, Repr

/-- One construct, with its parts referred to by `ι`. -/
inductive Node (ι : Type) where
  | compilationUnit (members : List ι)
  | method (name : String) (returnType : Option TypeRef) (params : List ι) (body : ι)
      (isAsync : Bool)
  | parameter (name : String) (type : Option TypeRef)
  | block (statements : List ι)
  | expressionStatement (expr : ι)
  | localDeclaration (name : String) (type : Option TypeRef) (init : Option ι)
  | returnStatement (value : Option ι)
  | ifStatement (condition thenBranch : ι) (elseBranch : Option ι)
  | identifier (name : String)
  | this
  | literal (value : Literal)
  | memberAccess (receiver : ι) (member : String)
  /-- `receiver?.rest`: the member bindings inside `rest` read from `receiver`. -/
  | conditionalAccess (receiver rest : ι)
  /-- `.member` read from the receiver of the nearest enclosing conditional access. -/
  | memberBinding (member : String)
  | invocation (callee : ι) (args : List (Argument ι))
  | outVariable (name : String) (type : Option TypeRef)
  | unary (op : UnaryOp) (operand : ι)
  | binary (op : BinaryOp) (left right : ι)
  | isPattern (operand : ι) (pattern : Pattern)
  | conditional (condition whenTrue whenFalse : ι)
  | lambda (params : List ι) (body : ι) (isAsync : Bool)
  | await (operand : ι)
  | parenthesized (inner : ι)
  deriving DecidableEq, Repr, Inhabited

/-- The kinds of nodes, without their parts. -/
inductive NodeKind where
  | compilationUnit
  | method
  | parameter
  | block
  | expressionStatement
  | localDeclaration
  | returnStatement
  | ifStatement
  | identifier
  | this
  | literal
  | memberAccess
  | conditionalAccess
  | memberBinding
  | invocation
  | outVariable
  | unary
  | binary
  | isPattern
  | conditional
  | lambda
  | await
  | parenthesized
  deriving DecidableEq, Repr, Inhabited

/-- Every kind, in the order of declaration. -/
def NodeKind.all : List NodeKind :=
  [.compilationUnit, .method, .parameter, .block, .expressionStatement, .localDeclaration,
   .returnStatement, .ifStatement, .identifier, .this, .literal, .memberAccess,
   .conditionalAccess, .memberBinding, .invocation, .outVariable, .unary, .binary, .isPattern,
   .conditional, .lambda, .await, .parenthesized]

namespace Node

variable {ι κ : Type}

/-- The kind of a node. -/
def kind : Node ι → NodeKind
  | .compilationUnit .. => .compilationUnit
  | .method .. => .method
  | .parameter .. => .parameter
  | .block .. => .block
  | .expressionStatement .. => .expressionStatement
  | .localDeclaration .. => .localDeclaration
  | .returnStatement .. => .returnStatement
  | .ifStatement .. => .ifStatement
  | .identifier .. => .identifier
  | .this => .this
  | .literal .. => .literal
  | .memberAccess .. => .memberAccess
  | .conditionalAccess .. => .conditionalAccess
  | .memberBinding .. => .memberBinding
  | .invocation .. => .invocation
  | .outVariable .. => .outVariable
  | .unary .. => .unary
  | .binary .. => .binary
  | .isPattern .. => .isPattern
  | .conditional .. => .conditional
  | .lambda .. => .lambda
  | .await .. => .await
  | .parenthesized .. => .parenthesized

/-- The parts of a node in source order. -/
def children : Node ι → List ι
  | .compilationUnit members => members
  | .method _ _ params body _ => params ++ [body]
  | .parameter .. => []
  | .block statements => statements
  | .expressionStatement expr => [expr]
  | .localDeclaration _ _ init => init.toList
  | .returnStatement value => value.toList
  | .ifStatement condition thenBranch elseBranch => condition :: thenBranch :: elseBranch.toList
  | .identifier .. => []
  | .this => []
  | .literal .. => []
  | .memberAccess receiver _ => [receiver]
  | .conditionalAccess receiver rest => [receiver, rest]
  | .memberBinding .. => []
  | .invocation callee args => callee :: args.map (·.value)
  | .outVariable .. => []
  | .unary _ operand => [operand]
  | .binary _ left right => [left, right]
  | .isPattern operand _ => [operand]
  | .conditional condition whenTrue whenFalse => [condition, whenTrue, whenFalse]
  | .lambda params body _ => params ++ [body]
  | .await operand => [operand]
  | .parenthesized inner => [inner]

/-- The same construct with every reference replaced, given that it is one of the parts. -/
def mapChildren (node : Node ι) (f : (c : ι) → c ∈ node.children → κ) : Node κ :=
  match node, f with
  | .compilationUnit members, f =>
    .compilationUnit (members.attach.map fun m => f m.1 m.2)
  | .method name returnType params body isAsync, f =>
    .method name returnType (params.attach.map fun p => f p.1 (by simp [children, p.2]))
      (f body (by simp [children])) isAsync
  | .parameter name type, _ => .parameter name type
  | .block statements, f => .block (statements.attach.map fun s => f s.1 s.2)
  | .expressionStatement expr, f => .expressionStatement (f expr (by simp [children]))
  | .localDeclaration name type none, _ => .localDeclaration name type none
  | .localDeclaration name type (some init), f =>
    .localDeclaration name type (some (f init (by simp [children])))
  | .returnStatement none, _ => .returnStatement none
  | .returnStatement (some value), f => .returnStatement (some (f value (by simp [children])))
  | .ifStatement condition thenBranch none, f =>
    .ifStatement (f condition (by simp [children])) (f thenBranch (by simp [children])) none
  | .ifStatement condition thenBranch (some elseBranch), f =>
    .ifStatement (f condition (by simp [children])) (f thenBranch (by simp [children]))
      (some (f elseBranch (by simp [children])))
  | .identifier name, _ => .identifier name
  | .this, _ => .this
  | .literal value, _ => .literal value
  | .memberAccess receiver member, f => .memberAccess (f receiver (by simp [children])) member
  | .conditionalAccess receiver rest, f =>
    .conditionalAccess (f receiver (by simp [children])) (f rest (by simp [children]))
  | .memberBinding member, _ => .memberBinding member
  | .invocation callee args, f =>
    .invocation (f callee (by simp [children]))
      (args.attach.map fun a =>
        ⟨a.1.name, f a.1.value (List.mem_cons_of_mem _ (List.mem_map_of_mem a.2))⟩)
  | .outVariable name type, _ => .outVariable name type
  | .unary op operand, f => .unary op (f operand (by simp [children]))
  | .binary op left right, f =>
    .binary op (f left (by simp [children])) (f right (by simp [children]))
  | .isPattern operand pattern, f => .isPattern (f operand (by simp [children])) pattern
  | .conditional condition whenTrue whenFalse, f =>
    .conditional (f condition (by simp [children])) (f whenTrue (by simp [children]))
      (f whenFalse (by simp [children]))
  | .lambda params body isAsync, f =>
    .lambda (params.attach.map fun p => f p.1 (by simp [children, p.2]))
      (f body (by simp [children])) isAsync
  | .await operand, f => .await (f operand (by simp [children]))
  | .parenthesized inner, f => .parenthesized (f inner (by simp [children]))

/-- The same construct with every reference replaced. -/
def map (f : ι → κ) (node : Node ι) : Node κ := node.mapChildren fun c _ => f c

/-- A statement, as opposed to an expression or a declaration. -/
def isStatement : Node ι → Bool
  | .block .. => true
  | .expressionStatement .. => true
  | .localDeclaration .. => true
  | .returnStatement .. => true
  | .ifStatement .. => true
  | _ => false

/-- The owner of an executable body. -/
def isBodyOwner : Node ι → Bool
  | .method .. => true
  | .lambda .. => true
  | .compilationUnit .. => true
  | _ => false

/-! ## Parts and replacement -/

/-- Replacing the references replaces the parts, in the same order. -/
theorem children_mapChildren (node : Node ι) (f : (c : ι) → c ∈ node.children → κ) :
    (node.mapChildren f).children = node.children.attach.map fun c => f c.1 c.2 := by
  cases node with
  | localDeclaration name type init => cases init <;> simp [mapChildren, children]
  | returnStatement value => cases value <;> simp [mapChildren, children]
  | ifStatement condition thenBranch elseBranch =>
      cases elseBranch <;> simp [mapChildren, children]
  | invocation callee args =>
      simp [mapChildren, children, List.attach_map, Function.comp_def]
  | method name returnType params body isAsync =>
      simp [mapChildren, children, List.attach_append, Function.comp_def]
  | lambda params body isAsync =>
      simp [mapChildren, children, List.attach_append, Function.comp_def]
  | _ => simp [mapChildren, children]

end Node

end StateGuard
