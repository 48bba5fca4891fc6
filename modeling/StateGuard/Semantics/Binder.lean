import StateGuard.Semantics.Imports
import StateGuard.Semantics.Location
import StateGuard.Semantics.Scopes
import StateGuard.Syntax.Tree

/-!
# Binding

The oracle of a tree, computed by lexical scoping. Every declaration has a symbol of its own, made
of its name and its node; a name gets the symbol of the declaration it stands for.

Types go only as far as the analysis needs them:

* an untyped lambda parameter of a member call takes the only type argument of the receiver's type,
  that is the element of a sequence or the payload of a wrapper;
* a member call has the type of its receiver, but a projection is a sequence of what its function
  returns, and a try accessor is a boolean;
* a call on the name of a wrapper type builds such a wrapper around its first argument;
* a discriminant is a boolean, and the ok payload is the type argument;
* waiting for an asynchronous wrapper gives what it wraps.
-/

namespace StateGuard

/-- What a declared name stands for. -/
structure Binding where
  symbol : String
  type : Option TypeRef
  deriving DecidableEq, Repr

namespace Binder

/-- What the binder knows while it goes through a tree of `n` nodes. -/
structure State (n : Nat) where
  scopes : Scopes Binding
  /-- The fields of the unit, which are read through the enclosing object. -/
  fields : Scope Binding
  oracle : Oracle n

/-- A step of the binder. -/
abbrev Bind (n : Nat) : Type → Type := StateM (State n)

/-- The family of a constructed generic type with one argument. -/
def familyOf? (config : Config) (type : TypeRef) : Option Family :=
  match type.singleArg? with
  | none => none
  | some _ => config.families.find? (·.matchesTypeName type.name)

/-- The type of a member that is read from a wrapper. -/
def memberType (config : Config) (receiver : Option TypeRef) (member : String) :
    Option TypeRef := do
  let receiver ← receiver
  let family ← familyOf? config receiver
  match ← family.role? member with
  | .discriminant _ => some .boolean
  | .payload .ok => receiver.singleArg?
  | .payload .notOk => none
  | .tryAccessor _ => none

/-- The projection whose function returns a sequence for each element. -/
def flattening : String := "SelectMany"

/-- The sequence that a projection delivers, given the types of its arguments. -/
def projectionType (method : String) (args : List (Option TypeRef)) : Option TypeRef := do
  let body ← args.findSome? id
  let element ← if method = flattening then body.singleArg? else some body
  return .generic Imports.sequence [element]

/-- Whether a method is a try accessor of a type. -/
def isTryAccessor (config : Config) (receiver : Option TypeRef) (method : String) : Bool :=
  match (receiver.bind (familyOf? config)).bind (·.role? method) with
  | some (.tryAccessor _) => true
  | _ => false

/-- The type of a member call. -/
def callType (config : Config) (receiver : Option TypeRef) (method : String)
    (args : List (Option TypeRef)) : Option TypeRef :=
  if isTryAccessor config receiver method then some .boolean
  else if config.pipeline.isProjection method then projectionType method args
  else receiver

/-- Whether a lambda argument receives the payload or element of the receiver: the callback for
the other state of a dispatch does not. -/
def receivesElement (config : Config) (method : String) (name : Option String) (position : Nat) :
    Bool :=
  !config.callContexts.isDispatch method ||
    config.callContexts.dispatchState? name position == some .ok

/-- The type of a literal. -/
def literalType : Literal → Option TypeRef
  | .bool _ => some .boolean
  | .int _ => some (.named "int")
  | .str _ => some (.named "string")
  | .null => none

/-- The type of a binary operation, given that of its left operand. -/
def operationType (op : BinaryOp) (left : Option TypeRef) : Option TypeRef :=
  match op with
  | .add | .sub | .mul | .div => left
  | _ => some .boolean

section

variable {n : Nat}

/-- Record the type of a node, if it has one. -/
def record (i : Fin n) (type : Option TypeRef) : Bind n Unit :=
  match type with
  | some type => modify fun s => { s with oracle := s.oracle.setType i type }
  | none => pure ()

/-- Record the symbol of a node. -/
def mark (i : Fin n) (symbol : String) : Bind n Unit :=
  modify fun s => { s with oracle := s.oracle.setSymbol i symbol }

/-- The symbol of a declaration. -/
def symbolOf (name : String) (i : Fin n) : String := name ++ "@" ++ toString i.val

/-- Declare a name in the innermost scope. -/
def declare (i : Fin n) (name : String) (type : Option TypeRef) : Bind n Binding := do
  let binding : Binding := ⟨symbolOf name i, type⟩
  mark i binding.symbol
  record i type
  modify fun s => { s with scopes := s.scopes.declare name binding }
  return binding

/-- What a name stands for. -/
def lookup (name : String) : Bind n (Option Binding) := do
  return (← get).scopes.lookup name

/-- Do something in a scope of its own. -/
def inScope {α : Type} (action : Bind n α) : Bind n α := do
  modify fun s => { s with scopes := s.scopes.push }
  let result ← action
  modify fun s => { s with scopes := s.scopes.pop.2 }
  return result

end

section

variable (tree : Tree) (config : Config) (imports : Imports)

/-- Declare a parameter. A type of its own goes before the one it would take. -/
def declareParameter (param : tree.Id) (inferred : Option TypeRef) : Bind tree.size Unit :=
  match tree.node param with
  | .parameter name type => discard <| declare param name (type <|> inferred)
  | _ => pure ()

/-- Declare the parameters of a lambda or method. Only the first can take a type. -/
def declareParameters (params : List tree.Id) (element : Option TypeRef) : Bind tree.size Unit :=
  match params with
  | [] => pure ()
  | first :: rest => do
    declareParameter tree first element
    rest.forM fun param => declareParameter tree param none

/-- Declare a member of the unit, which is visible throughout. -/
def declareMember (member : tree.Id) : Bind tree.size Unit :=
  match tree.node member with
  | .method name returnType _ _ _ => discard <| declare member name returnType
  | .localDeclaration name type _ => do
    let binding ← declare member name type
    modify fun s => { s with fields := s.fields.insert name binding }
  | _ => pure ()

/-- The full name of a wrapper type that an expression names: a simple name that stands for no
variable and is imported for a family. -/
def wrapperName? (receiver : tree.Id) : Bind tree.size (Option String) :=
  match tree.node (tree.stripParens receiver) with
  | .identifier name => do
    match ← lookup name with
    | some _ => return none
    | none =>
      return (imports.lookup name).filter fun fullName =>
        config.families.any (·.matchesTypeName fullName)
  | _ => return none

/-- The type of an out variable of a try accessor for the ok state: the payload of the receiver,
whose type has been recorded by then. -/
def outVariableType (oracle : Oracle tree.size) (i : tree.Id) : Option TypeRef := do
  let call ← tree.parent i
  match tree.node call with
  | .invocation callee _ =>
    match tree.node (tree.stripParens callee) with
    | .memberAccess receiver member =>
      let type ← oracle.typeOf receiver
      let family ← familyOf? config type
      match ← family.role? member with
      | .tryAccessor .ok => type.singleArg?
      | _ => none
    | _ => none
  | _ => none

/-- Measures of the functions below at a part of a node and at the node. -/
theorem measure_lt {tree : Tree} {c i : tree.Id} (h : tree.height c < tree.height i) :
    4 * tree.height c + 3 < 4 * tree.height i := by
  omega

mutual
/-- Bind a node and all below it. The result is the type of the node, which is also recorded.
`receivers` are the types of the receivers of the conditional accesses around the node, from the
inside out. -/
def visit (receivers : List (Option TypeRef)) (i : tree.Id) :
    Bind tree.size (Option TypeRef) := do
  let type ← infer receivers i
  record i type
  return type
termination_by 4 * tree.height i + 3

/-- Bind all below a node. The result is the type of the node. -/
def infer (receivers : List (Option TypeRef)) (i : tree.Id) :
    Bind tree.size (Option TypeRef) :=
  match _h : tree.node i with
  | .compilationUnit members => do
    members.forM (declareMember tree)
    members.attach.forM fun ⟨member, _⟩ => discard <| visit receivers member
    return none
  | .method _ _ params body _ => do
    inScope do
      params.forM fun param => declareParameter tree param none
      discard <| visit receivers body
    return none
  | .parameter _ type => return type
  | .block statements => do
    inScope <| statements.attach.forM fun ⟨statement, _⟩ => discard <| visit receivers statement
    return none
  | .expressionStatement expr => do
    discard <| visit receivers expr
    return none
  | .returnStatement none => return none
  | .returnStatement (some value) => do
    discard <| visit receivers value
    return none
  | .ifStatement condition thenBranch elseBranch => do
    discard <| visit receivers condition
    discard <| visit receivers thenBranch
    match _hElse : elseBranch with
    | some elseBranch => discard <| visit receivers elseBranch
    | none => pure ()
    return none
  | .localDeclaration name type none => do
    discard <| declare i name type
    return type
  | .localDeclaration name type (some init) => do
    let type := type <|> (← visit receivers init)
    discard <| declare i name type
    return type
  | .outVariable name type => do
    let type := type <|> outVariableType tree config (← get).oracle i
    discard <| declare i name type
    return type
  | .identifier name => do
    match ← lookup name with
    | none => return none
    | some binding =>
      mark i binding.symbol
      return binding.type
  | .this => return none
  | .literal value => return literalType value
  | .memberAccess receiver member => do
    let type ← visit receivers receiver
    if tree.isThis receiver then
      match (← get).fields.find? member with
      | none => return none
      | some field =>
        mark i field.symbol
        return field.type
    else return memberType config type member
  | .conditionalAccess receiver rest => do
    let type ← visit receivers receiver
    visit (type :: receivers) rest
  | .memberBinding member => return memberType config receivers.head?.join member
  | .invocation .. => inferCall receivers i
  | .unary op operand => do
    let type ← visit receivers operand
    match op with
    | .not => return some .boolean
    | .negate => return type
  | .binary op left right => do
    let type ← visit receivers left
    discard <| visit receivers right
    return operationType op type
  | .isPattern operand _ => do
    discard <| visit receivers operand
    return some .boolean
  | .conditional condition whenTrue whenFalse => do
    discard <| visit receivers condition
    let type ← visit receivers whenTrue
    let other ← visit receivers whenFalse
    return type <|> other
  | .lambda params body _ => do
    inScope do
      declareParameters tree params none
      discard <| visit receivers body
    return none
  | .await operand => do
    match ← visit receivers operand with
    | none => return none
    | some type => return if config.isAsyncWrapper type.name then type.singleArg? else none
  | .parenthesized inner => visit receivers inner
termination_by 4 * tree.height i + 2
decreasing_by
  all_goals first
    | omega
    | exact Nat.lt_add_right 2 (measure_lt (Arena.height_lt_of_mem_children
        (by grind [Node.children])))

/-- Bind all below a call. The result is the type of the call. -/
def inferCall (receivers : List (Option TypeRef)) (i : tree.Id) :
    Bind tree.size (Option TypeRef) :=
  match _h : tree.node i with
  | .invocation callee _ =>
    match _hCallee : tree.node (tree.stripParens callee) with
    | .memberAccess receiver method => do
      match ← wrapperName? tree config imports receiver with
      | some fullName =>
        let types ← bindArguments receivers i method none
        return some (.generic fullName [types.head?.join.getD (.named "object")])
      | none =>
        let type ← visit receivers receiver
        let types ← bindArguments receivers i method (type.bind (·.singleArg?))
        return callType config type method types
    | .identifier name => do
      let binding ← lookup name
      match binding with
      | some binding => mark (tree.stripParens callee) binding.symbol
      | none => pure ()
      discard <| bindArguments receivers i name none
      return binding.bind (·.type)
    | _ => do
      discard <| visit receivers (tree.stripParens callee)
      discard <| bindArguments receivers i "" none
      return none
  | _ => return none
termination_by 4 * tree.height i + 1
decreasing_by
  all_goals first
    | omega
    | skip
  · have hCallee : tree.height callee < tree.height i :=
      Arena.height_lt_of_mem_children (by simp [_h, Node.children])
    have hReceiver : tree.height receiver < tree.height callee :=
      Arena.height_lt_of_mem_children_stripParens (by simp [_hCallee, Node.children])
    exact Nat.lt_add_right 1 (measure_lt (Nat.lt_trans hReceiver hCallee))
  · have hCallee : tree.height callee < tree.height i :=
      Arena.height_lt_of_mem_children (by simp [_h, Node.children])
    exact Nat.lt_add_right 1
      (measure_lt (Nat.lt_of_le_of_lt (Arena.height_stripParens_le callee) hCallee))

/-- Bind the arguments of a call to a method. The result is the type of each argument; that of a
lambda is the type of its body. -/
def bindArguments (receivers : List (Option TypeRef)) (i : tree.Id) (method : String)
    (element : Option TypeRef) : Bind tree.size (List (Option TypeRef)) :=
  match _h : tree.node i with
  | .invocation _ args =>
    args.attach.zipIdx.mapM fun (⟨arg, _⟩, position) =>
      match _hArg : tree.node arg.value with
      | .lambda params body _ => inScope do
        declareParameters tree params
          (if receivesElement config method arg.name position then element else none)
        visit receivers body
      | _ => visit receivers arg.value
  | _ => return []
termination_by 4 * tree.height i
decreasing_by
  · have hArgument : tree.height arg.value < tree.height i :=
      Arena.height_lt_of_mem_children (by grind [Node.children])
    have hBody : tree.height body < tree.height arg.value :=
      Arena.height_lt_of_mem_children (by simp [_hArg, Node.children])
    exact measure_lt (Nat.lt_trans hBody hArgument)
  · exact measure_lt (Arena.height_lt_of_mem_children (by grind [Node.children]))
end

/-- The oracle of a tree, with the given imports. -/
def bindWith : Oracle tree.size :=
  ((visit tree config imports [] tree.root).run ⟨.empty, [], .empty tree.size⟩).2.oracle

end

end Binder

/-- The oracle of a tree. -/
def Tree.bind (tree : Tree) (config : Config) : Oracle tree.size :=
  Binder.bindWith tree config (.ofConfig config)

end StateGuard
