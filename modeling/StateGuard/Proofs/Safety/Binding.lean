import StateGuard.Proofs.Safety.Analysis
import StateGuard.Proofs.Semantics.Transport

/-!
# Binding before acceptance

The binder as it runs on parts that a host hands in.  It keeps what the binder keeps, and whatever
reads no part is the binder's own action; a type or a symbol that is recorded for a number outside
of the tree leaves it without a result.  On a unit that is accepted binding ends with the oracle of
the tree, and with that all walks of the analysis are known to end inside of the parts.

## Main results

* `AcceptedAs.visit_run`: a visit ends, from every state of the binder.
* `AcceptedAs.bind_run`: so does binding.
* `accepted_unit_runs_to_the_end`: **on an accepted unit every walk, every question of the analysis,
  every rule and the binder end, and never read outside of the parts.**
-/

namespace StateGuard.RawUnit

open Binder

/-- A step of the binder that follows numbers. -/
abbrev RawBind (n : Nat) : Type → Type := StateT (Binder.State n) Run

/-- A step of the binder that reads no part. -/
def act {n : Nat} {α : Type} (action : Bind n α) : RawBind n α := fun s => some (action.run s)

/-- A number as a position among `n` nodes. -/
def position (n i : Nat) : Run (Fin n) := if h : i < n then some ⟨i, h⟩ else none

noncomputable section

variable (raw : RawUnit) (n : Nat) (imports : Imports)

/-! ## Declarations and calls -/

/-- Declare a parameter. -/
def declareParameter (param : Nat) (inferred : Option TypeRef) : RawBind n Unit := do
  match ← raw.node param with
  | .parameter name type =>
    let param ← position n param
    act (discard <| declare param name (type <|> inferred))
  | _ => return ()

/-- Declare the parameters of a lambda. -/
def declareParameters (params : List Nat) (element : Option TypeRef) : RawBind n Unit :=
  match params with
  | [] => return ()
  | first :: rest => do
    raw.declareParameter n first element
    rest.forM fun param => raw.declareParameter n param none

/-- Declare a member of the unit. -/
def declareMember (member : Nat) : RawBind n Unit := do
  match ← raw.node member with
  | .method name returnType _ _ _ =>
    let member ← position n member
    act (discard <| declare member name returnType)
  | .localDeclaration name type _ =>
    let member ← position n member
    act do
      let binding ← declare member name type
      modify fun s => { s with fields := s.fields.insert name binding }
  | _ => return ()

/-- The full name of a wrapper type that an expression names. -/
def wrapperName? (receiver : Nat) : RawBind n (Option String) := do
  match ← raw.node (← raw.stripParens receiver) with
  | .identifier name =>
    act do
      match ← lookup name with
      | some _ => return none
      | none =>
        return (imports.lookup name).filter fun fullName =>
          raw.config.families.any (·.matchesTypeName fullName)
  | _ => return none

/-- The type of an out variable of a call to a method, given the type of the receiver. -/
def payloadType (config : Config) (type : Option TypeRef) (method : String) : Option TypeRef := do
  let type ← type
  let family ← familyOf? config type
  match ← family.role? method with
  | .tryAccessor .ok => type.singleArg?
  | _ => none

/-- The type of an out variable. -/
def outVariableType {n : Nat} (oracle : Oracle n) (i : Nat) : Run (Option TypeRef) := do
  match ← raw.parent i with
  | none => return none
  | some call =>
    match ← raw.node call with
    | .invocation callee _ =>
      match ← raw.node (← raw.stripParens callee) with
      | .memberAccess receiver method =>
        return payloadType raw.config (oracle.typeOf (← position n receiver)) method
      | _ => return none
    | _ => return none

/-! ## Visiting -/

/-- Enter a scope. -/
def enter {n : Nat} : Bind n Unit := modify fun s => { s with scopes := s.scopes.push }

/-- Leave the innermost scope. -/
def leave {n : Nat} : Bind n Unit := modify fun s => { s with scopes := s.scopes.pop.2 }

section Step

variable (visit : List (Option TypeRef) → Nat → RawBind n (Option TypeRef))

/-- Bind one argument of a call, given how parts are visited. -/
def bindArgument (receivers : List (Option TypeRef)) (method : String) (element : Option TypeRef)
    (arg : Argument Nat) (place : Nat) : RawBind n (Option TypeRef) := do
  match ← raw.node arg.value with
  | .lambda params body _ =>
    act enter
    raw.declareParameters n params
      (if receivesElement raw.config method arg.name place then element else none)
    let type ← visit receivers body
    act leave
    return type
  | _ => visit receivers arg.value
/-- Bind the arguments of a call to a method, each with its position. -/
def bindArguments (receivers : List (Option TypeRef)) (args : List (Argument Nat))
    (method : String) (element : Option TypeRef) : RawBind n (List (Option TypeRef)) :=
  args.zipIdx.mapM fun x => raw.bindArgument n visit receivers method element x.1 x.2

/-- Bind all below a call. -/
def inferCall (receivers : List (Option TypeRef)) (callee : Nat) (args : List (Argument Nat)) :
    RawBind n (Option TypeRef) := do
  let callee ← raw.stripParens callee
  match ← raw.node callee with
  | .memberAccess receiver method =>
    match ← raw.wrapperName? n imports receiver with
    | some fullName =>
      let types ← raw.bindArguments n visit receivers args method none
      return some (.generic fullName [types.head?.join.getD (.named "object")])
    | none =>
      let type ← visit receivers receiver
      let types ← raw.bindArguments n visit receivers args method (type.bind (·.singleArg?))
      return callType raw.config type method types
  | .identifier name =>
    match ← act (lookup name) with
    | some binding =>
      let callee ← position n callee
      act (mark callee binding.symbol)
      let _ ← raw.bindArguments n visit receivers args name none
      return binding.type
    | none =>
      let _ ← raw.bindArguments n visit receivers args name none
      return none
  | _ =>
    let _ ← visit receivers callee
    let _ ← raw.bindArguments n visit receivers args "" none
    return none

/-- Bind all below a part. -/
def infer (receivers : List (Option TypeRef)) (i : Nat) : RawBind n (Option TypeRef) := do
  match ← raw.node i with
  | .compilationUnit members =>
    members.forM (raw.declareMember n)
    members.forM fun member => do
      let _ ← visit receivers member
      return ()
    return none
  | .method _ _ params body _ =>
    act enter
    params.forM fun param => raw.declareParameter n param none
    let _ ← visit receivers body
    act leave
    return none
  | .parameter _ type => return type
  | .block statements =>
    act enter
    statements.forM fun statement => do
      let _ ← visit receivers statement
      return ()
    act leave
    return none
  | .expressionStatement expr =>
    let _ ← visit receivers expr
    return none
  | .returnStatement none => return none
  | .returnStatement (some value) =>
    let _ ← visit receivers value
    return none
  | .ifStatement condition thenBranch none =>
    let _ ← visit receivers condition
    let _ ← visit receivers thenBranch
    return none
  | .ifStatement condition thenBranch (some elseBranch) =>
    let _ ← visit receivers condition
    let _ ← visit receivers thenBranch
    let _ ← visit receivers elseBranch
    return none
  | .localDeclaration name type none =>
    let i ← position n i
    let _ ← act (declare i name type)
    return type
  | .localDeclaration name type (some init) =>
    let type := type <|> (← visit receivers init)
    let i ← position n i
    let _ ← act (declare i name type)
    return type
  | .outVariable name type =>
    let type := type <|> (← raw.outVariableType (← get).oracle i)
    let i ← position n i
    let _ ← act (declare i name type)
    return type
  | .identifier name =>
    match ← act (lookup name) with
    | none => return none
    | some binding =>
      let i ← position n i
      act (mark i binding.symbol)
      return binding.type
  | .this => return none
  | .literal value => return literalType value
  | .memberAccess receiver member =>
    let type ← visit receivers receiver
    if ← raw.isThis receiver then
      match (← get).fields.find? member with
      | none => return none
      | some field =>
        let i ← position n i
        act (mark i field.symbol)
        return field.type
    else return memberType raw.config type member
  | .conditionalAccess receiver rest =>
    let type ← visit receivers receiver
    visit (type :: receivers) rest
  | .memberBinding member => return memberType raw.config receivers.head?.join member
  | .invocation callee args => raw.inferCall n imports visit receivers callee args
  | .unary op operand =>
    let type ← visit receivers operand
    match op with
    | .not => return some .boolean
    | .negate => return type
  | .binary op left right =>
    let type ← visit receivers left
    let _ ← visit receivers right
    return operationType op type
  | .isPattern operand _ =>
    let _ ← visit receivers operand
    return some .boolean
  | .conditional condition whenTrue whenFalse =>
    let _ ← visit receivers condition
    let type ← visit receivers whenTrue
    let other ← visit receivers whenFalse
    return type <|> other
  | .lambda params body _ =>
    act enter
    raw.declareParameters n params none
    let _ ← visit receivers body
    act leave
    return none
  | .await operand =>
    match ← visit receivers operand with
    | none => return none
    | some type => return if raw.config.isAsyncWrapper type.name then type.singleArg? else none
  | .parenthesized inner => visit receivers inner

/-- Bind a part and all below it, and record its type, given how parts are visited. -/
def visitStep (receivers : List (Option TypeRef)) (i : Nat) : RawBind n (Option TypeRef) := do
  let type ← raw.infer n imports visit receivers i
  let i ← position n i
  act (record i type)
  return type

end Step

/-- A visit by the types around a part, its number and the state of the binder. -/
def visitCall (visit : List (Option TypeRef) × Nat × Binder.State n →
    Run (Option TypeRef × Binder.State n)) :
    List (Option TypeRef) × Nat × Binder.State n → Run (Option TypeRef × Binder.State n) :=
  fun (receivers, i, s) =>
    raw.visitStep n imports (fun receivers i s => visit (receivers, i, s)) receivers i s

/-- Bind a part and all below it, and record its type. -/
def visit (receivers : List (Option TypeRef)) (i : Nat) : RawBind n (Option TypeRef) := fun s =>
  Run.fix (raw.visitCall n imports) (receivers, i, s)

/-- The oracle of the parts, as answers about `n` nodes. -/
def bind : Run (Oracle n) := do
  let (_, state) ←
    (raw.visit n (.ofConfig raw.config) [] raw.root).run ⟨.empty, [], .empty n⟩
  return state.oracle

/-! ## Actions -/

section Actions

variable {n} {α β γ : Type}

/-- One action after another, each of which reads no part. -/
theorem act_bind {action : Bind n α} {next : α → Bind n β} {run : α → RawBind n β}
    (h : ∀ a, run a = act (next a)) : (act action >>= run) = act (action >>= next) := by
  rw [funext h]
  rfl

theorem read_bind (a : α) (next : α → RawBind n β) :
    ((liftM (some a : Run α) : RawBind n α) >>= next) = next a := rfl

theorem position_val (i : Fin n) : position n i.val = some i := dif_pos i.isLt

variable {f : α → β} {l : List α}

theorem forM_map {run : β → RawBind n Unit} {p : α → Bind n Unit}
    (h : ∀ a ∈ l, run (f a) = act (p a)) : (l.map f).forM run = act (l.forM p) := by
  induction l with
  | nil => rfl
  | cons a l ih =>
      have hRest := ih fun b hb => h b (List.mem_cons_of_mem a hb)
      show (run (f a) >>= fun _ => (l.map f).forM run) = act (p a >>= fun _ => l.forM p)
      rw [h a List.mem_cons_self, hRest]
      rfl

theorem mapM_map {run : β → RawBind n γ} {p : α → Bind n γ}
    (h : ∀ a ∈ l, run (f a) = act (p a)) : (l.map f).mapM run = act (l.mapM p) := by
  induction l with
  | nil => rfl
  | cons a l ih =>
      have hRest := ih fun b hb => h b (List.mem_cons_of_mem a hb)
      rw [List.map_cons, List.mapM_cons, List.mapM_cons, h a List.mem_cons_self, hRest]
      rfl

end Actions

/-! ## On an accepted unit -/

namespace AcceptedAs

variable {raw} {ctx : Context} (h : raw.AcceptedAs ctx) {imports} {i : ctx.Id}
  {receivers : List (Option TypeRef)}
  {visit : List (Option TypeRef) → Nat → RawBind ctx.tree.size (Option TypeRef)}
include h

theorem declareParameter_run (param : ctx.Id) (inferred : Option TypeRef) :
    raw.declareParameter ctx.tree.size param inferred =
      act (Binder.declareParameter ctx.tree param inferred) := by
  unfold RawUnit.declareParameter Binder.declareParameter
  rw [h.node, read_bind]
  cases ctx.tree.node param with
  | parameter name type =>
      simp only [Node.map_parameter, position_val]
      rfl
  | _ => simp; rfl

theorem declareParameters_run (params : List ctx.Id) (element : Option TypeRef) :
    raw.declareParameters ctx.tree.size (params.map Fin.val) element =
      act (Binder.declareParameters ctx.tree params element) := by
  cases params with
  | nil => rfl
  | cons first rest =>
      have hRest : ((rest.map Fin.val).forM fun param =>
            raw.declareParameter ctx.tree.size param none) =
          act (rest.forM fun param => Binder.declareParameter ctx.tree param none) :=
        forM_map fun param _ => h.declareParameter_run param none
      rw [List.map_cons, RawUnit.declareParameters, h.declareParameter_run, hRest]
      rfl

theorem declareMember_run (member : ctx.Id) :
    raw.declareMember ctx.tree.size member = act (Binder.declareMember ctx.tree member) := by
  unfold RawUnit.declareMember Binder.declareMember
  rw [h.node, read_bind]
  cases ctx.tree.node member with
  | method name returnType params body isAsync =>
      simp only [Node.map_method, position_val]
      rfl
  | localDeclaration name type init =>
      simp only [Node.map_localDeclaration, position_val]
      rfl
  | _ => simp; rfl

theorem wrapperName_run (receiver : ctx.Id) :
    raw.wrapperName? ctx.tree.size imports receiver =
      act (Binder.wrapperName? ctx.tree ctx.config imports receiver) := by
  unfold RawUnit.wrapperName? Binder.wrapperName?
  rw [h.stripParens_run, read_bind, h.node, read_bind, h.config]
  cases ctx.tree.node (ctx.tree.stripParens receiver) <;> simp <;> rfl

theorem outVariableType_run (oracle : Oracle ctx.tree.size) (i : ctx.Id) :
    raw.outVariableType oracle i =
      some (Binder.outVariableType ctx.tree ctx.config oracle i) := by
  unfold RawUnit.outVariableType Binder.outVariableType
  rw [h.parent, Run.some_bind]
  cases ctx.tree.parent i with
  | none => rfl
  | some made =>
      simp only [Option.map_some, h.node, Run.some_bind, h.config]
      show _ = some (match ctx.tree.node made with | _ => _)
      cases ctx.tree.node made with
      | invocation callee args =>
          simp only [Node.map_invocation, h.stripParens_run, h.node, Run.some_bind]
          cases ctx.tree.node (ctx.tree.stripParens callee) with
          | memberAccess receiver method =>
              simp only [Node.map_memberAccess, position_val, Run.some_bind]
              rfl
          | _ => simp
      | _ => simp

/-- A visit of a part does what the binder does at the node. -/
def VisitRuns {ctx : Context} (imports : Imports)
    (visit : List (Option TypeRef) → Nat → RawBind ctx.tree.size (Option TypeRef))
    (i : ctx.Id) : Prop :=
  ∀ receivers, visit receivers i =
    act (Binder.visit ctx.tree ctx.config imports receivers i)

/-! ### One construct -/

omit h in
theorem visitAll_run (parts : List ctx.Id)
    (ih : ∀ part ∈ parts, VisitRuns imports visit part) :
    ((parts.map Fin.val).forM fun part => do
        let _ ← visit receivers part
        return ()) =
      act (parts.attach.forM fun ⟨part, _⟩ =>
        discard <| Binder.visit ctx.tree ctx.config imports receivers part) := by
  rw [forM_attach parts fun part =>
    discard <| Binder.visit ctx.tree ctx.config imports receivers part]
  apply forM_map
  intro part hPart
  rw [ih part hPart]
  rfl

/-- A lambda, whatever the types of its parameters. -/
theorem lambda_run {params : List ctx.Id} {body : ctx.Id}
    (ih : VisitRuns imports visit body) (element : Option TypeRef) :
    (do
        act enter
        raw.declareParameters ctx.tree.size (params.map Fin.val) element
        let type ← visit receivers body
        act leave
        return type) =
      act (Binder.inScope do
        Binder.declareParameters ctx.tree params element
        Binder.visit ctx.tree ctx.config imports receivers body) := by
  rw [h.declareParameters_run, ih receivers]
  rfl

theorem bindArgument_run (arg : Argument ctx.Id) (place : Nat) (method : String)
    (element : Option TypeRef) (ih : VisitRuns imports visit arg.value)
    (ihBody : ∀ body ∈ (ctx.tree.node arg.value).children, VisitRuns imports visit body) :
    raw.bindArgument ctx.tree.size visit receivers method element (arg.map Fin.val) place =
      act (Binder.bindArgument ctx.config imports receivers method element arg place) := by
  rw [RawUnit.bindArgument, Binder.bindArgument, h.config]
  show (liftM (raw.node arg.value) >>= _) = _
  rw [h.node, read_bind]
  cases hNode : ctx.tree.node arg.value with
  | lambda params body isAsync =>
      rw [Node.map_lambda]
      exact h.lambda_run (ihBody body (by simp [hNode, Node.children])) _
  | localDeclaration name type init =>
      rw [Node.map_localDeclaration]
      exact ih receivers
  | returnStatement value =>
      rw [Node.map_returnStatement]
      exact ih receivers
  | ifStatement condition thenBranch elseBranch =>
      rw [Node.map_ifStatement]
      exact ih receivers
  | _ => exact ih receivers

section Below

variable (ih : ∀ k : ctx.Id, ctx.tree.height k < ctx.tree.height i → VisitRuns imports visit k)
include ih

/-- The arguments of a call, each with its position. -/
theorem bindArguments_run {callee : ctx.Id} {args : List (Argument ctx.Id)}
    (hNode : ctx.tree.node i = .invocation callee args) (method : String)
    (element : Option TypeRef) :
    raw.bindArguments ctx.tree.size visit receivers (args.map (·.map Fin.val)) method element =
      act (Binder.bindArguments ctx.tree ctx.config imports receivers i method element) := by
  rw [RawUnit.bindArguments, Binder.bindArguments_eq_mapM receivers hNode, List.zipIdx_map]
  apply mapM_map
  rintro ⟨arg, place⟩ hMem
  have hArg : arg.value ∈ (ctx.tree.node i).children := by
    rw [hNode]
    exact List.mem_cons_of_mem _ (List.mem_map_of_mem (List.fst_mem_of_mem_zipIdx hMem))
  have hLower := Arena.height_lt_of_mem_children hArg
  apply h.bindArgument_run arg place method element (ih _ hLower)
  intro body hBody
  exact ih body (Nat.lt_trans (Arena.height_lt_of_mem_children hBody) hLower)

theorem inferCall_run {callee : ctx.Id} {args : List (Argument ctx.Id)}
    (hNode : ctx.tree.node i = .invocation callee args) :
    raw.inferCall ctx.tree.size imports visit receivers callee (args.map (·.map Fin.val)) =
      act (Binder.inferCall ctx.tree ctx.config imports receivers i) := by
  have hArguments : ∀ method element,
      raw.bindArguments ctx.tree.size visit receivers (args.map (·.map Fin.val)) method element =
        act (Binder.bindArguments ctx.tree ctx.config imports receivers i method element) :=
    h.bindArguments_run ih hNode
  have hCallee : ctx.tree.height callee < ctx.tree.height i :=
    Arena.height_lt_of_mem_children (by simp [hNode, Node.children])
  have hInner := ih (ctx.tree.stripParens callee)
    (Nat.lt_of_le_of_lt (Arena.height_stripParens_le callee) hCallee)
  have hOther : (do
        let _ ← visit receivers (ctx.tree.stripParens callee)
        let _ ← raw.bindArguments ctx.tree.size visit receivers (args.map (·.map Fin.val)) "" none
        return none) =
      act (do
        discard <| Binder.visit ctx.tree ctx.config imports receivers (ctx.tree.stripParens callee)
        discard <| Binder.bindArguments ctx.tree ctx.config imports receivers i "" none
        return (none : Option TypeRef)) := by
    rw [hInner receivers, hArguments]
    rfl
  rw [RawUnit.inferCall, h.stripParens_run, read_bind, h.node, read_bind, Binder.inferCall, hNode]
  dsimp only
  cases hStripped : ctx.tree.node (ctx.tree.stripParens callee) with
  | memberAccess receiver method =>
      have hReceiver := ih receiver (Nat.lt_trans (Arena.height_lt_of_mem_children_stripParens
        (by simp [hStripped, Node.children])) hCallee)
      simp only [Node.map_memberAccess, h.wrapperName_run, hReceiver receivers, hArguments,
        h.config]
      apply act_bind
      intro found
      cases found <;> rfl
  | identifier name =>
      simp only [Node.map_identifier, hArguments, position_val]
      apply act_bind
      intro found
      cases found <;> rfl
  | localDeclaration name type init =>
      rw [Node.map_localDeclaration]
      exact hOther
  | returnStatement value =>
      rw [Node.map_returnStatement]
      exact hOther
  | ifStatement condition thenBranch elseBranch =>
      rw [Node.map_ifStatement]
      exact hOther
  | _ => exact hOther

theorem infer_run : raw.infer ctx.tree.size imports visit receivers i =
    act (Binder.infer ctx.tree ctx.config imports receivers i) := by
  have hPart : ∀ part ∈ (ctx.tree.node i).children, VisitRuns imports visit part :=
    fun part hPart => ih part (Arena.height_lt_of_mem_children hPart)
  rw [RawUnit.infer, h.node, read_bind, Binder.infer]
  cases hNode : ctx.tree.node i with
  | compilationUnit members =>
      rw [hNode] at hPart
      have hMembers : ((members.map Fin.val).forM (raw.declareMember ctx.tree.size)) =
          act (members.forM (Binder.declareMember ctx.tree)) :=
        forM_map fun member _ => h.declareMember_run member
      simp only [Node.map_compilationUnit, hMembers, visitAll_run members hPart]
      rfl
  | method name returnType params body isAsync =>
      have hBody := hPart body (by simp [hNode, Node.children]) receivers
      have hParams : ((params.map Fin.val).forM fun param =>
            raw.declareParameter ctx.tree.size param none) =
          act (params.forM fun param => Binder.declareParameter ctx.tree param none) :=
        forM_map fun param _ => h.declareParameter_run param none
      simp only [Node.map_method, hParams, hBody]
      rfl
  | block statements =>
      rw [hNode] at hPart
      simp only [Node.map_block, visitAll_run statements hPart]
      rfl
  | lambda params body isAsync =>
      have hBody := hPart body (by simp [hNode, Node.children]) receivers
      simp only [Node.map_lambda, h.declareParameters_run, hBody]
      rfl
  | invocation callee args =>
      rw [Node.map_invocation]
      exact h.inferCall_run ih hNode
  | parameter name type => rfl
  | this => rfl
  | literal value => rfl
  | expressionStatement expr =>
      have hExpr := hPart expr (by simp [hNode, Node.children]) receivers
      simp only [Node.map_expressionStatement, hExpr]
      rfl
  | returnStatement value =>
      cases value with
      | none => rfl
      | some value =>
          have hValue := hPart value (by simp [hNode, Node.children]) receivers
          simp only [Node.map_returnStatement, Option.map_some, hValue]
          rfl
  | ifStatement condition thenBranch elseBranch =>
      have hCondition := hPart condition (by simp [hNode, Node.children]) receivers
      have hThen := hPart thenBranch (by simp [hNode, Node.children]) receivers
      cases elseBranch with
      | none =>
          simp only [Node.map_ifStatement, Option.map_none, hCondition, hThen]
          rfl
      | some elseBranch =>
          have hElse := hPart elseBranch (by simp [hNode, Node.children]) receivers
          simp only [Node.map_ifStatement, Option.map_some, hCondition, hThen, hElse]
          rfl
  | localDeclaration name type init =>
      cases init with
      | none =>
          simp only [Node.map_localDeclaration, Option.map_none, position_val]
          rfl
      | some init =>
          have hInit := hPart init (by simp [hNode, Node.children]) receivers
          simp only [Node.map_localDeclaration, Option.map_some, hInit, position_val]
          rfl
  | outVariable name type =>
      simp only [Node.map_outVariable, h.outVariableType_run, position_val]
      rfl
  | identifier name =>
      simp only [Node.map_identifier, position_val]
      apply act_bind
      intro found
      cases found <;> rfl
  | memberAccess receiver member =>
      have hReceiver := hPart receiver (by simp [hNode, Node.children]) receivers
      simp only [Node.map_memberAccess, hReceiver, h.isThis_run, read_bind, position_val, h.config]
      apply act_bind
      intro type
      cases ctx.tree.isThis receiver with
      | false => rfl
      | true =>
          show (act get >>= _) = act (get >>= _)
          apply act_bind
          intro state
          cases state.fields.find? member <;> rfl
  | conditionalAccess receiver rest =>
      have hReceiver := hPart receiver (by simp [hNode, Node.children]) receivers
      have hRest := fun type => hPart rest (by simp [hNode, Node.children]) (type :: receivers)
      simp only [Node.map_conditionalAccess, hReceiver, hRest]
      rfl
  | memberBinding member =>
      simp only [Node.map_memberBinding, h.config]
      rfl
  | unary op operand =>
      have hOperand := hPart operand (by simp [hNode, Node.children]) receivers
      simp only [Node.map_unary, hOperand]
      cases op <;> rfl
  | binary op left right =>
      have hLeft := hPart left (by simp [hNode, Node.children]) receivers
      have hRight := hPart right (by simp [hNode, Node.children]) receivers
      simp only [Node.map_binary, hLeft, hRight]
      rfl
  | isPattern operand pattern =>
      have hOperand := hPart operand (by simp [hNode, Node.children]) receivers
      simp only [Node.map_isPattern, hOperand]
      rfl
  | conditional condition whenTrue whenFalse =>
      have hCondition := hPart condition (by simp [hNode, Node.children]) receivers
      have hTrue := hPart whenTrue (by simp [hNode, Node.children]) receivers
      have hFalse := hPart whenFalse (by simp [hNode, Node.children]) receivers
      simp only [Node.map_conditional, hCondition, hTrue, hFalse]
      rfl
  | await operand =>
      have hOperand := hPart operand (by simp [hNode, Node.children]) receivers
      simp only [Node.map_await, hOperand, h.config]
      apply act_bind
      intro type
      cases type <;> rfl
  | parenthesized inner =>
      exact hPart inner (by simp [hNode, Node.children]) receivers

end Below

theorem visitStep_run
    (ih : ∀ k : ctx.Id, ctx.tree.height k < ctx.tree.height i → VisitRuns imports visit k) :
    VisitRuns imports (raw.visitStep ctx.tree.size imports visit) i := by
  intro receivers
  rw [RawUnit.visitStep, Binder.visit, h.infer_run ih]
  simp only [position_val]
  rfl

open Filter in
/-- From some depth on a visit does what the binder does, whatever the state it starts from. -/
theorem eventually_visit_run (imports : Imports) (i : ctx.Id) : ∀ᶠ depth in atTop,
    VisitRuns imports (fun receivers i s =>
      Run.upTo (raw.visitCall ctx.tree.size imports) depth (receivers, i, s)) i := by
  induction hHeight : ctx.tree.height i using Nat.strongRecOn generalizing i with
  | ind height ih =>
      have hLower := (eventually_all_finite
        (Set.toFinite {k : ctx.Id | ctx.tree.height k < ctx.tree.height i})).2
          fun k hk => ih _ (hHeight ▸ hk) k rfl
      refine (Run.eventually_step_iff (P := fun run =>
        VisitRuns imports (fun receivers i s => run (receivers, i, s)) i)).1 ?_
      filter_upwards [hLower] with depth hDepth
      exact h.visitStep_run hDepth

/-- **A visit ends,** from every state of the binder. -/
theorem visit_run (i : ctx.Id) : VisitRuns imports (raw.visit ctx.tree.size imports) i := by
  intro receivers
  funext s
  refine Run.fix_eq_some_iff.2 ?_
  filter_upwards [h.eventually_visit_run imports i] with depth hDepth
  exact congrFun (hDepth receivers) s

/-- **Binding ends.** -/
theorem bind_run : raw.bind ctx.tree.size = some (ctx.tree.bind ctx.config) := by
  have hVisit : raw.visit ctx.tree.size (.ofConfig ctx.config) [] ctx.tree.root = _ :=
    h.visit_run ctx.tree.root []
  rw [RawUnit.bind, h.root, h.config, hVisit]
  rfl

end AcceptedAs

/-! ## Every run -/

/-- Whatever starts at a number of a part ends: the walks up and down, the questions about
conditions and receivers, and the rules.  Each has the result that it has at the node. -/
structure RunsAt (raw : RawUnit) (ctx : Context) (i : ctx.Id) : Prop where
  ancestors : raw.ancestors i = some ((ctx.tree.ancestors i).map Fin.val)
  isWithin : ∀ top : ctx.Id, raw.isWithin i top = some (ctx.tree.isWithin i top)
  stripParens : raw.stripParens i = some (ctx.tree.stripParens i).val
  render : raw.render i = some (ctx.tree.render i)
  sameLocation : ∀ j : ctx.Id, raw.sameLocation i j = some (ctx.sameLocation i j)
  shape : raw.shape i = some ((ctx.answer (ctx.shape i)).map Fin.val)
  isFiltered : ∀ state, raw.isFiltered i state = some (ctx.answer (ctx.isFiltered i state))
  bindingReceiver : raw.bindingReceiver? i = some ((ctx.bindingReceiver? i).map Fin.val)
  inspect : ∀ rule, raw.inspect rule i = some (ctx.answer (rule.inspect ctx i))

/-- **On an accepted unit every run ends, inside of the parts.**  Whatever a host says about types
and declarations, and by every configuration: the walk through the tree, the binder, and all that
starts at a number below the number of parts have the results of the analysis. -/
theorem accepted_unit_runs_to_the_end {raw : RawUnit} {ctx : Context} (h : raw.accept = .ok ctx) :
    ctx.tree.size = raw.parts.size ∧
      raw.preorder = some (ctx.tree.preorder.map Fin.val) ∧
      raw.bind ctx.tree.size = some (ctx.tree.bind ctx.config) ∧
      ∀ i : ctx.Id, raw.RunsAt ctx i := by
  have hAccepted := acceptedAs_of_accept h
  refine ⟨size_of_accept h, hAccepted.preorder_run, hAccepted.bind_run, fun i => ?_⟩
  exact {
    ancestors := hAccepted.ancestors_run i
    isWithin := hAccepted.isWithin_run i
    stripParens := hAccepted.stripParens_run i
    render := hAccepted.render_run i
    sameLocation := hAccepted.sameLocation_run i
    shape := hAccepted.shape_run i
    isFiltered := hAccepted.isFiltered_run i
    bindingReceiver := hAccepted.bindingReceiver_run i
    inspect := fun rule => hAccepted.inspect_run rule i }

/-- A unit with a member binding and a lambda that no part lists, and with a type and a declaration
for every number. -/
def withOrphans : RawUnit where
  file := "orphans.cs"
  parts := #[
    ⟨.compilationUnit [1], .zero⟩,
    ⟨.expressionStatement 2, .zero⟩,
    ⟨.memberAccess 3 "Value", .zero⟩,
    ⟨.identifier "r", .zero⟩,
    ⟨.memberBinding "Value", .zero⟩,
    ⟨.lambda [6] 7 false, .zero⟩,
    ⟨.this, .zero⟩,
    ⟨.parameter "x" none, .zero⟩]
  root := 0
  typeOf := fun _ => some (.generic "CSharpFunctionalExtensions.Result" [.named "int"])
  symbolOf := fun _ => some "r@0"
  config := {}

/-- Every rule ends at each of the parts, the orphans among them, and so does the binder. -/
theorem orphans_run_to_the_end : ∃ ctx, withOrphans.accept = .ok ctx ∧
    (withOrphans.bind ctx.tree.size).isSome ∧
    ∀ rule, ∀ i < withOrphans.parts.size, (withOrphans.inspect rule i).isSome := by
  have hSome : withOrphans.accept.toOption.isSome = true := by decide +kernel
  cases hAccept : withOrphans.accept with
  | error e => simp [hAccept, Except.toOption] at hSome
  | ok ctx =>
      obtain ⟨hSize, -, hBind, hRuns⟩ := accepted_unit_runs_to_the_end hAccept
      refine ⟨ctx, rfl, by simp [hBind], ?_⟩
      intro rule i hi
      have hInspect := (hRuns ⟨i, hSize ▸ hi⟩).inspect rule
      simp [hInspect]

end

end StateGuard.RawUnit
