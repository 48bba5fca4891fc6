import StateGuard.Guard.UseSite
import StateGuard.Proofs.Semantics.Environments

/-!
# The binder with its stack

The binder hands the types of the receivers that a member binding can read from down to the parts of
a node.  Here they are a stack: the type of the receiver of a conditional access is pushed before
the second part of the access is bound, and popped after it.  Every visit is logged, with the stack
and the number of open scopes before and after it.

## Main results

* `Logged.visit`, `Logged.run`: the binder with a stack and a log.
* `Context.bindingReceiver?_eq_getLast?`: the receiver that a member binding reads from is the last
  of those that belong on the stack.
-/

namespace StateGuard

namespace Arena

variable (arena : Arena)

/-- The receiver of an access whose second part contains a node. -/
def receiverBefore? (i access : arena.Id) : Option arena.Id :=
  match arena.node access with
  | .conditionalAccess receiver rest => if arena.isWithin i rest then some receiver else none
  | _ => none

/-- The receivers of the conditional accesses whose second part contains a node, outermost first. -/
def receiversAround (i : arena.Id) : List arena.Id :=
  (arena.ancestors i).reverse.filterMap (arena.receiverBefore? i)

variable {arena} {i c receiver rest : arena.Id}

theorem receiversAround_of_parent_none (hParent : arena.parent i = none) :
    arena.receiversAround i = [] := by
  simp [receiversAround, ancestors_of_parent_none hParent]

/-- A node above a part of `i` has its receiver before the part exactly if it has it before `i`. -/
theorem receiverBefore?_of_mem_ancestors (hc : c ∈ (arena.node i).children) {access : arena.Id}
    (hAccess : access ∈ arena.ancestors i) :
    arena.receiverBefore? c access = arena.receiverBefore? i access := by
  have hParent := (arena.parent_eq_some_iff c i).2 hc
  unfold receiverBefore?
  cases hNode : arena.node access with
  | conditionalAccess receiver rest =>
      have hNe : c ≠ rest := by
        rintro rfl
        have hRest := (arena.parent_eq_some_iff c access).2 (by simp [hNode, Node.children])
        obtain rfl := Option.some.inj (hParent.symm.trans hRest)
        exact (mem_ancestors_iff.1 hAccess).1 rfl
      have hSame : arena.isWithin c rest = arena.isWithin i rest := by
        rw [Bool.eq_iff_iff, isWithin_iff]
        simp [hNe, hParent]
      simp only [hSame]
  | _ => rfl

/-- The receivers around a part are those around the node, and that of the node itself. -/
theorem receiversAround_of_mem_children (hc : c ∈ (arena.node i).children) :
    arena.receiversAround c =
      arena.receiversAround i ++ (arena.receiverBefore? c i).toList := by
  rw [receiversAround, ancestors_of_parent ((arena.parent_eq_some_iff c i).2 hc),
    List.reverse_cons, List.filterMap_append, receiversAround]
  have hAbove : (arena.ancestors i).reverse.filterMap (arena.receiverBefore? c) =
      (arena.ancestors i).reverse.filterMap (arena.receiverBefore? i) :=
    List.filterMap_congr fun access hMem =>
      receiverBefore?_of_mem_ancestors hc (List.mem_reverse.1 hMem)
  have hHere : [i].filterMap (arena.receiverBefore? c) = (arena.receiverBefore? c i).toList := by
    cases hReceiver : arena.receiverBefore? c i <;> simp [hReceiver]
  rw [hAbove, hHere]

/-- Only the second part of a conditional access has a further receiver around it. -/
theorem receiversAround_part (hc : c ∈ (arena.node i).children)
    (hOther : ∀ receiver rest, arena.node i = .conditionalAccess receiver rest → c = receiver) :
    arena.receiversAround c = arena.receiversAround i := by
  rw [receiversAround_of_mem_children hc]
  have hNone : arena.receiverBefore? c i = none := by
    unfold receiverBefore?
    cases hNode : arena.node i with
    | conditionalAccess receiver rest =>
        obtain rfl := hOther receiver rest hNode
        have hNodup := arena.children_nodup i
        rw [hNode] at hNodup
        have hNot : arena.isWithin c rest = false := by
          rw [← Bool.not_eq_true]
          intro hWithin
          have hEq := eq_of_isWithin_parts (p := i) hc (by simp [hNode, Node.children])
            (isWithin_self c) hWithin
          simp [Node.children, hEq] at hNodup
        simp [hNot]
    | _ => rfl
  rw [hNone]
  simp

theorem receiversAround_rest (hNode : arena.node i = .conditionalAccess receiver rest) :
    arena.receiversAround rest = arena.receiversAround i ++ [receiver] := by
  have hRest : rest ∈ (arena.node i).children := by simp [hNode, Node.children]
  rw [receiversAround_of_mem_children hRest, receiverBefore?, hNode]
  simp [isWithin_self]

theorem receiversAround_stripParens (c : arena.Id) :
    arena.receiversAround (arena.stripParens c) = arena.receiversAround c := by
  fun_induction stripParens with
  | case1 c inner h ih =>
      rw [ih, receiversAround_part (i := c) (by simp [h, Node.children]) (by simp [h])]
  | case2 c h => rfl

end Arena

/-- **What a member binding reads from** is the last of the receivers around it. -/
theorem Context.bindingReceiver?_eq_getLast? (ctx : Context) (i : ctx.Id) :
    ctx.bindingReceiver? i = (ctx.tree.receiversAround i).getLast? := by
  rw [Arena.receiversAround, List.filterMap_reverse, List.getLast?_reverse, List.head?_filterMap,
    Context.bindingReceiver?]
  refine congrArg (fun f => (ctx.tree.ancestors i).findSome? f) (funext fun access => ?_)
  unfold Arena.receiverBefore?
  cases ctx.tree.node access <;> rfl

namespace Binder

/-- What a visit can put at risk: the stack of receiver types, outermost first, and the number of
open scopes. -/
structure Frame where
  stack : List (Option TypeRef)
  depth : Nat
  deriving DecidableEq, Repr

/-- A visit of a node, with its result. -/
structure Visit (n : Nat) where
  node : Fin n
  before : Frame
  after : Frame
  type : Option TypeRef

/-- What the binder with a stack knows, and the visits that are over. -/
structure Logged (n : Nat) where
  state : State n
  stack : List (Option TypeRef)
  visits : List (Visit n)

namespace Logged

variable {n : Nat}

/-- What a visit can put at risk. -/
def frame (w : Logged n) : Frame := ⟨w.stack, w.state.scopes.depth⟩

/-- A step of the binder with a stack. -/
abbrev Bind (n : Nat) : Type → Type := StateM (Logged n)

/-- A step that does not touch the stack. -/
def lift {α : Type} (action : Binder.Bind n α) : Bind n α := fun w =>
  ((action.run w.state).1, { w with state := (action.run w.state).2 })

/-- Do something in a scope of its own. -/
def inScope {α : Type} (action : Bind n α) : Bind n α := do
  lift <| modify fun s => { s with scopes := s.scopes.push }
  let result ← action
  lift <| modify fun s => { s with scopes := s.scopes.pop.2 }
  return result

/-- Do something with one more receiver type on the stack. -/
def withReceiver {α : Type} (type : Option TypeRef) (action : Bind n α) : Bind n α := do
  modify fun w => { w with stack := w.stack ++ [type] }
  let result ← action
  modify fun w => { w with stack := w.stack.dropLast }
  return result

/-- Log a visit. -/
def logVisit (i : Fin n) (action : Bind n (Option TypeRef)) : Bind n (Option TypeRef) := do
  let before ← get
  let type ← action
  modify fun after =>
    { after with visits := ⟨i, before.frame, after.frame, type⟩ :: after.visits }
  return type

variable (tree : Tree) (config : Config) (imports : Imports)

mutual
/-- Bind a node and all below it. -/
def visit (i : tree.Id) : Bind tree.size (Option TypeRef) :=
  logVisit i do
    let type ← infer i
    lift <| record i type
    return type
termination_by 4 * tree.height i + 3

/-- Bind all below a node. -/
def infer (i : tree.Id) : Bind tree.size (Option TypeRef) :=
  match _h : tree.node i with
  | .compilationUnit members => do
    lift <| members.forM (declareMember tree)
    members.attach.forM fun ⟨member, _⟩ => discard <| visit member
    return none
  | .method _ _ params body _ => do
    inScope do
      lift <| params.forM fun param => declareParameter tree param none
      discard <| visit body
    return none
  | .parameter _ type => return type
  | .block statements => do
    inScope <| statements.attach.forM fun ⟨statement, _⟩ => discard <| visit statement
    return none
  | .expressionStatement expr => do
    discard <| visit expr
    return none
  | .returnStatement none => return none
  | .returnStatement (some value) => do
    discard <| visit value
    return none
  | .ifStatement condition thenBranch elseBranch => do
    discard <| visit condition
    discard <| visit thenBranch
    match _hElse : elseBranch with
    | some elseBranch => discard <| visit elseBranch
    | none => pure ()
    return none
  | .localDeclaration name type none => do
    discard <| lift <| declare i name type
    return type
  | .localDeclaration name type (some init) => do
    let type := type <|> (← visit init)
    discard <| lift <| declare i name type
    return type
  | .outVariable name type => do
    let type := type <|> outVariableType tree config (← lift get).oracle i
    discard <| lift <| declare i name type
    return type
  | .identifier name => do
    match ← lift <| lookup name with
    | none => return none
    | some binding =>
      lift <| mark i binding.symbol
      return binding.type
  | .this => return none
  | .literal value => return literalType value
  | .memberAccess receiver member => do
    let type ← visit receiver
    if tree.isThis receiver then
      match (← lift get).fields.find? member with
      | none => return none
      | some field =>
        lift <| mark i field.symbol
        return field.type
    else return memberType config type member
  | .conditionalAccess receiver rest => do
    let type ← visit receiver
    withReceiver type <| visit rest
  | .memberBinding member => return memberType config (← get).stack.getLast?.join member
  | .invocation .. => inferCall i
  | .unary op operand => do
    let type ← visit operand
    match op with
    | .not => return some .boolean
    | .negate => return type
  | .binary op left right => do
    let type ← visit left
    discard <| visit right
    return operationType op type
  | .isPattern operand _ => do
    discard <| visit operand
    return some .boolean
  | .conditional condition whenTrue whenFalse => do
    discard <| visit condition
    let type ← visit whenTrue
    let other ← visit whenFalse
    return type <|> other
  | .lambda params body _ => do
    inScope do
      lift <| declareParameters tree params none
      discard <| visit body
    return none
  | .await operand => do
    match ← visit operand with
    | none => return none
    | some type => return if config.isAsyncWrapper type.name then type.singleArg? else none
  | .parenthesized inner => visit inner
termination_by 4 * tree.height i + 2
decreasing_by
  all_goals first
    | omega
    | exact Nat.lt_add_right 2 (measure_lt (Arena.height_lt_of_mem_children
        (by grind [Node.children])))

/-- Bind all below a call. -/
def inferCall (i : tree.Id) : Bind tree.size (Option TypeRef) :=
  match _h : tree.node i with
  | .invocation callee _ =>
    match _hCallee : tree.node (tree.stripParens callee) with
    | .memberAccess receiver method => do
      match ← lift <| wrapperName? tree config imports receiver with
      | some fullName =>
        let types ← bindArguments i method none
        return some (.generic fullName [types.head?.join.getD (.named "object")])
      | none =>
        let type ← visit receiver
        let types ← bindArguments i method (type.bind (·.singleArg?))
        return callType config type method types
    | .identifier name => do
      let binding ← lift <| lookup name
      match binding with
      | some binding => lift <| mark (tree.stripParens callee) binding.symbol
      | none => pure ()
      discard <| bindArguments i name none
      return binding.bind (·.type)
    | _ => do
      discard <| visit (tree.stripParens callee)
      discard <| bindArguments i "" none
      return none
  | _ => return none
termination_by 4 * tree.height i + 1
decreasing_by
  all_goals first
    | omega
    | skip
  · have hCallee : tree.height callee < tree.height i :=
      Arena.height_lt_of_mem_children (by simp [_h, Node.children])
    have hReceiver : tree.height receiver < tree.height callee :=
      Arena.height_lt_of_mem_children_stripParens (by simp [_hCallee, Node.children])
    exact Nat.lt_add_right 1 (measure_lt (Nat.lt_trans hReceiver hCallee))
  · have hCallee : tree.height callee < tree.height i :=
      Arena.height_lt_of_mem_children (by simp [_h, Node.children])
    exact Nat.lt_add_right 1
      (measure_lt (Nat.lt_of_le_of_lt (Arena.height_stripParens_le callee) hCallee))

/-- Bind the arguments of a call to a method. -/
def bindArguments (i : tree.Id) (method : String) (element : Option TypeRef) :
    Bind tree.size (List (Option TypeRef)) :=
  match _h : tree.node i with
  | .invocation _ args =>
    args.attach.zipIdx.mapM fun (⟨arg, _⟩, position) =>
      match _hArg : tree.node arg.value with
      | .lambda params body _ => inScope do
        lift <| declareParameters tree params
          (if receivesElement config method arg.name position then element else none)
        visit body
      | _ => visit arg.value
  | _ => return []
termination_by 4 * tree.height i
decreasing_by
  · have hArgument : tree.height arg.value < tree.height i :=
      Arena.height_lt_of_mem_children (by grind [Node.children])
    have hBody : tree.height body < tree.height arg.value :=
      Arena.height_lt_of_mem_children (by simp [_hArg, Node.children])
    exact measure_lt (Nat.lt_trans hBody hArgument)
  · exact measure_lt (Arena.height_lt_of_mem_children (by grind [Node.children]))
end

/-- The binder with a stack, before it has seen anything. -/
def initial : Logged tree.size := ⟨⟨.empty, [], .empty tree.size⟩, [], []⟩

/-- The run of the binder with a stack over a whole tree. -/
def run : Logged tree.size :=
  ((visit tree config imports tree.root).run (initial tree)).2

end Logged

end Binder

end StateGuard
