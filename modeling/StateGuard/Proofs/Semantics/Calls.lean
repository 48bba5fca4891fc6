import StateGuard.Proofs.Semantics.Constructs

/-!
# Calls follow the environments

A call binds its callee and then its arguments.  It binds its lambdas on its own, and leaves out
what is around the receiver of its callee, and the names of wrapper types: what is left out is no
field.

## Main results

* `follows_bindArguments`, `follows_inferCall`: a call.
* `visitFollows`: every visit follows the environments, whatever the tree.
-/

namespace StateGuard.Binder

open Arena

variable {tree : Tree} {config : Config} {imports : Imports} {around : List tree.Id}
  {receivers : List (Option TypeRef)} {start stop env : Env tree.Id} {i c : tree.Id}

/-! ## Arguments -/

/-- Bind one argument of a call. -/
def Logged.bindArgument (config : Config) (imports : Imports) (method : String)
    (element : Option TypeRef) (arg : Argument tree.Id) (position : Nat) :
    Logged.Bind tree.size (Option TypeRef) :=
  match tree.node arg.value with
  | .lambda params body _ => Logged.inScope do
    Logged.lift <| declareParameters tree params
      (if receivesElement config method arg.name position then element else none)
    Logged.visit tree config imports body
  | _ => Logged.visit tree config imports arg.value

theorem Logged.bindArguments_eq {callee : tree.Id} {args : List (Argument tree.Id)}
    (hNode : tree.node i = .invocation callee args) (method : String) (element : Option TypeRef) :
    Logged.bindArguments tree config imports i method element =
      args.attach.zipIdx.mapM fun x =>
        Logged.bindArgument config imports method element x.1.1 x.2 := by
  rw [Logged.bindArguments, hNode]
  refine congrArg (fun f => List.mapM f args.attach.zipIdx) (funext fun x => ?_)
  obtain ⟨⟨arg, hArg⟩, position⟩ := x
  dsimp only [Logged.bindArgument]
  split
  · next hLambda => rw [hLambda]
  · next hOther =>
      split
      · next hLambda => exact absurd hLambda (hOther _ _ _)
      · rfl

theorem follows_bindArgument {arg : Argument tree.Id}
    (hValue : VisitFollows config imports arg.value)
    (hBody : ∀ params body isAsync, tree.node arg.value = .lambda params body isAsync →
      VisitFollows config imports body)
    (receivers : List (Option TypeRef)) (method : String) (element : Option TypeRef)
    (position : Nat) :
    Follows config (fun j => tree.isWithin j arg.value = true) (tree.receiversAround arg.value)
      receivers (tree.envAt arg.value) (tree.leave (tree.envAt arg.value) arg.value)
      (Logged.bindArgument config imports method element arg position)
      (bindArgument config imports receivers method element arg position) := by
  unfold Logged.bindArgument bindArgument
  cases hNode : tree.node arg.value with
  | lambda params body isAsync =>
      have hChildren : (tree.node arg.value).children = params ++ [body] := by rw [hNode]; rfl
      have hPart : body ∈ (tree.node arg.value).children := by simp [hChildren]
      have hInner := (hBody params body isAsync hNode).part hPart (by simp [hNode]) receivers
      exact (Follows.lambda hNode _ hInner).widen (isWithin_of_scope hChildren)
        (not_readsField_outside hChildren (lambda_params hNode) (by rw [hNode]; simp [Node.kind]))
  | _ => exact hValue receivers

/-- The arguments of a call are bound one after the other. -/
theorem follows_bindArguments {callee : tree.Id} {args : List (Argument tree.Id)}
    (hNode : tree.node i = .invocation callee args)
    (ih : ∀ c, tree.height c < tree.height i → VisitFollows config imports c)
    (receivers : List (Option TypeRef)) (method : String) (element : Option TypeRef) :
    Follows config (WithinAny (args.map (·.value))) (tree.receiversAround i) receivers
      (progressEnv i [callee]) (progressEnv i (callee :: args.map (·.value)))
      (Logged.bindArguments tree config imports i method element)
      (bindArguments tree config imports receivers i method element) := by
  have hChildren : (tree.node i).children = callee :: args.map (·.value) := by rw [hNode]; rfl
  have hParts : (tree.node i).boundParts = callee :: args.map (·.value) := by rw [hNode]; rfl
  have hValues := map_value_zipIdx args
  have hEach : ∀ (earlier : List ({ a // a ∈ args } × Nat)) x later,
      args.attach.zipIdx = earlier ++ x :: later →
      Follows config (fun j => tree.isWithin j x.1.1.value = true) (tree.receiversAround i)
        receivers
        (progressEnv i (callee :: earlier.map fun y => y.1.1.value))
        (progressEnv i (callee :: (earlier ++ [x]).map fun y => y.1.1.value))
        (Logged.bindArgument config imports method element x.1.1 x.2)
        (bindArgument config imports receivers method element x.1.1 x.2) := by
    intro earlier x later hSplit
    have hArg : x.1.1.value ∈ (tree.node i).children := by
      rw [hChildren]
      exact List.mem_cons_of_mem _ (List.mem_map_of_mem x.1.2)
    have hAll : (tree.node i).boundParts = (callee :: earlier.map fun y => y.1.1.value) ++
        x.1.1.value :: later.map fun y => y.1.1.value := by
      rw [hParts, ← hValues, hSplit]
      simp
    have hLt := height_lt_of_mem_children hArg
    have h := follows_bindArgument (ih _ hLt)
      (fun params body isAsync hLambda => ih body (Nat.lt_trans
        (height_lt_of_mem_children (by simp [hLambda, Node.children])) hLt))
      receivers method element x.2
    rw [receiversAround_part hArg (by simp [hNode]), envAt_of_boundParts hAll,
      ← progressEnv_append] at h
    simpa using h
  have h := Follows.mapM (fun done : List ({ a // a ∈ args } × Nat) =>
    progressEnv i (callee :: done.map fun y => y.1.1.value)) hEach (pairwise_apart_arguments hNode)
  rw [bindArguments_eq hNode, Logged.bindArguments_eq hNode, ← hValues]
  refine h.congr fun j => ?_
  simp [WithinAny]

/-! ## Callees -/

section Callees

variable {α : Type} {m inner callee : tree.Id} {args : List (Argument tree.Id)}
  {member name : String}

/-- The callee of a call reads no field. -/
theorem not_readsField_of_callee (hNode : tree.node i = .invocation callee args) (other : String) :
    ¬ ReadsField (tree.stripParens callee) other :=
  fun h => h.2 i callee args hNode rfl

/-- Parentheses read no field: what is within an expression is within it without them, or reads
none. -/
theorem not_readsField_of_parens {j : tree.Id} (hj : tree.isWithin j c = true)
    (hNot : ¬ tree.isWithin j (tree.stripParens c) = true) (other : String) :
    ¬ ReadsField j other := by
  rcases isWithin_stripParens_or hj with hIn | ⟨inner, hParens⟩
  · exact absurd hIn hNot
  · exact not_readsField_of_kind (by rw [hParens]; simp [Node.kind]) other

/-- What goes through an expression without its parentheses goes through it with them. -/
theorem Follows.stripped {logged : Logged.Bind tree.size α} {action : Bind tree.size α}
    (h : Follows config (fun j => tree.isWithin j (tree.stripParens c) = true) around receivers
      (tree.envAt (tree.stripParens c))
      (tree.leave (tree.envAt (tree.stripParens c)) (tree.stripParens c)) logged action) :
    Follows config (fun j => tree.isWithin j c = true) around receivers (tree.envAt c)
      (tree.leave (tree.envAt c) c) logged action := by
  rw [envAt_stripParens, leave_stripParens] at h
  exact h.widen (fun j hj => isWithin_trans hj (isWithin_stripParens c))
    fun _ j other hj hNot => not_readsField_of_parens hj hNot other

/-- The receiver of a member access is bound where the access is. -/
theorem envAt_receiver (hNode : tree.node m = .memberAccess inner member) :
    tree.envAt inner = tree.envAt m := by
  have hSplit : (tree.node m).boundParts = [] ++ inner :: [] := by rw [hNode]; rfl
  rw [envAt_of_boundParts hSplit, progressEnv_nil_of_isOpen (by rw [hNode]; rfl)]

theorem leave_memberAccess (hNode : tree.node m = .memberAccess inner member)
    (env : Env tree.Id) : tree.leave env m = tree.leave env inner := by
  rw [leave_of_isOpen (by rw [hNode]; rfl), hNode]
  rfl

/-- What goes through the receiver of an access that reads no field goes through the access. -/
theorem Follows.receiver {logged : Logged.Bind tree.size α} {action : Bind tree.size α}
    (hNode : tree.node m = .memberAccess inner member)
    (hReads : ∀ other, ¬ ReadsField m other)
    (h : Follows config (fun j => tree.isWithin j inner = true) around receivers
      (tree.envAt inner) (tree.leave (tree.envAt inner) inner) logged action) :
    Follows config (fun j => tree.isWithin j m = true) around receivers (tree.envAt m)
      (tree.leave (tree.envAt m) m) logged action := by
  have hChildren : (tree.node m).children = [inner] := by rw [hNode]; rfl
  rw [envAt_receiver hNode, ← leave_memberAccess hNode] at h
  refine h.widen (fun j hj => isWithin_of_part hj (by simp [hChildren])) ?_
  intro _ j other hj hNot
  rw [congrFun (isWithin_of_only hChildren) j] at hj
  obtain rfl := hj.resolve_left hNot
  exact hReads other

/-- The receivers around a callee are those around the call. -/
theorem receiversAround_callee (hNode : tree.node i = .invocation callee args) :
    tree.receiversAround (tree.stripParens callee) = tree.receiversAround i := by
  rw [receiversAround_stripParens,
    receiversAround_part (i := i) (by simp [hNode, Node.children]) (by simp [hNode])]

theorem lookup_bind_run (next : Option Binding → Bind tree.size α) (s : State tree.size) :
    (lookup name >>= next).run s = (next (s.scopes.lookup name)).run s := rfl

theorem wrapperName?_run (config : Config) (imports : Imports) (receiver : tree.Id)
    (s : State tree.size) :
    ∃ found, (wrapperName? tree config imports receiver).run s = (found, s) ∧
      (found ≠ none → ∃ name, tree.node (tree.stripParens receiver) = .identifier name) := by
  unfold wrapperName?
  split
  · next name hName =>
      rw [lookup_bind_run]
      cases s.scopes.lookup name with
      | some binding => exact ⟨none, rfl, by simp⟩
      | none => exact ⟨_, rfl, fun _ => ⟨name, hName⟩⟩
  · exact ⟨none, rfl, by simp⟩

/-- Go on with the wrapper type that an expression names: such an expression is a name. -/
theorem Follows.wrapperName {nodes : tree.Id → Prop}
    {next : Option String → Logged.Bind tree.size α} {next' : Option String → Bind tree.size α}
    (hNone : Follows config nodes around receivers start stop (next none) (next' none))
    (hSome : ∀ fullName name, tree.node (tree.stripParens inner) = .identifier name →
      Follows config nodes around receivers start stop (next (some fullName))
        (next' (some fullName))) :
    Follows config nodes around receivers start stop
      (Logged.lift (wrapperName? tree config imports inner) >>= next)
      (wrapperName? tree config imports inner >>= next') := by
  intro w hReady
  obtain ⟨found, hRun, hName⟩ := wrapperName?_run config imports inner w.state
  have hLogged : (Logged.lift (wrapperName? tree config imports inner) >>= next).run w =
      (next found).run w := by
    show (next ((wrapperName? tree config imports inner).run w.state).1).run
      { w with state := ((wrapperName? tree config imports inner).run w.state).2 } = _
    rw [hRun]
  have hAction : (wrapperName? tree config imports inner >>= next').run w.state =
      (next' found).run w.state := by
    show (next' ((wrapperName? tree config imports inner).run w.state).1).run
      ((wrapperName? tree config imports inner).run w.state).2 = _
    rw [hRun]
  have hFound : Follows config nodes around receivers start stop (next found) (next' found) := by
    cases found with
    | none => exact hNone
    | some fullName =>
        obtain ⟨name, hNode⟩ := hName (by simp)
        exact hSome fullName name hNode
  unfold Erases
  rw [hLogged, hAction]
  exact hFound w hReady

/-- A name that is left out is bound all the same: it reads no field. -/
theorem Follows.skipName (hNode : tree.node c = .identifier name) :
    Follows config (fun j => tree.isWithin j c = true) around receivers (tree.envAt c)
      (tree.leave (tree.envAt c) c) (Pure.pure ()) (Pure.pure ()) := by
  rw [leave_identifier hNode]
  refine (Follows.pure ()).widen (fun _ h => h.elim) fun _ j other hj _ => ?_
  obtain rfl := (isWithin_identifier hNode j).1 hj
  exact not_readsField_of_kind (by rw [hNode]; simp [Node.kind]) other

/-- What an action does after it has looked up a name. -/
theorem HasFollowed.looked {nodes : tree.Id → Prop} {w : Logged tree.size}
    {next : Option Binding → Logged.Bind tree.size α} {next' : Option Binding → Bind tree.size α}
    (h : HasFollowed config nodes stop w ((next (w.state.scopes.lookup name)).run w).2 ∧
      Erases w (next (w.state.scopes.lookup name)) (next' (w.state.scopes.lookup name))) :
    HasFollowed config nodes stop w ((Logged.lift (lookup name) >>= next).run w).2 ∧
      Erases w (Logged.lift (lookup name) >>= next) (lookup name >>= next') := h

/-- A callee that is a name gets the symbol of what it stands for. -/
theorem HasFollowed.calleeName {w : Logged tree.size}
    (hNode : tree.node (tree.stripParens c) = .identifier name)
    (hReady : Ready config (fun j => tree.isWithin j c = true) around receivers (tree.envAt c) w) :
    HasFollowed config (fun j => tree.isWithin j c = true) (tree.leave (tree.envAt c) c) w
      ((w.state.scopes.lookup name).elim w fun binding =>
        ((Logged.lift (Binder.mark (tree.stripParens c) binding.symbol)).run w).2) := by
  have hHere := isWithin_stripParens c
  have hFound : Option.Rel (Stands w.state.oracle name) (w.state.scopes.lookup name)
      (tree.resolve? (tree.stripParens c)) := by
    rw [resolve?_identifier hNode, envAt_stripParens]
    exact hReady.tracks.lookup name
  obtain ⟨hFollowed, -⟩ := HasFollowed.named hReady.sound hReady.tracks (hReady.unbound _ hHere)
    (fun v hv hEq => hReady.unvisited v hv (hEq ▸ hHere)) (by rw [hNode]; rfl) (by rw [hNode]; rfl)
    hFound (by simp [hNode])
  rw [← leave_stripParens, leave_identifier hNode]
  refine hFollowed.widen (fun j hj => hj ▸ hHere) fun _ j other hj hNot => ?_
  exact not_readsField_of_parens hj (fun h => hNot ((isWithin_identifier hNode j).1 h)) other

/-- What looks up the name that is called and marks the callee if it finds something, before it goes
on with the arguments. -/
theorem Follows.calledName {done rest : List tree.Id}
    {logged next : Option Binding → Logged.Bind tree.size α}
    {action next' : Option Binding → Bind tree.size α}
    (hNode : tree.node (tree.stripParens c) = .identifier name)
    (hSplit : (tree.node i).boundParts = done ++ c :: rest)
    (hNone : logged none = next none ∧ action none = next' none)
    (hSome : ∀ found,
      logged (some found) = (Logged.lift (Binder.mark (tree.stripParens c) found.symbol) >>=
        fun _ => next (some found)) ∧
      action (some found) = (Binder.mark (tree.stripParens c) found.symbol >>=
        fun _ => next' (some found)))
    (hNext : ∀ binding, Follows config (WithinAny rest) around receivers
      (progressEnv i (done ++ [c])) stop (next binding) (next' binding)) :
    Follows config (WithinAny (c :: rest)) around receivers (progressEnv i done) stop
      (Logged.lift (lookup name) >>= logged) (lookup name >>= action) := by
  intro w hReady
  refine HasFollowed.looked ?_
  have hNodes : WithinAny (c :: rest) = fun j => tree.isWithin j c = true ∨ WithinAny rest j :=
    funext fun j => propext (withinAny_cons ..)
  have hApart : ∀ j, tree.isWithin j c = true → ¬ WithinAny rest j :=
    fun j hj => not_withinAny_later_bound hSplit hj
  rw [hNodes, ← envAt_of_boundParts hSplit] at hReady
  have hMarked := HasFollowed.calleeName hNode (hReady.mono fun _ => .inl)
  rw [envAt_of_boundParts hSplit, ← progressEnv_append] at hMarked
  rw [hNodes]
  cases hFound : w.state.scopes.lookup name with
  | none =>
      rw [hFound] at hMarked
      rw [hNone.1, hNone.2]
      have hSkips : Erases w (Pure.pure () : Logged.Bind tree.size Unit) (Pure.pure ()) :=
        ⟨rfl, rfl⟩
      exact hReady.bind ⟨hMarked, hSkips⟩ (fun _ : Unit => hNext none) hApart
  | some found =>
      rw [hFound] at hMarked
      rw [(hSome found).1, (hSome found).2]
      have hMarks := Erases.lift w (Binder.mark (tree.stripParens c) found.symbol)
      exact hReady.bind ⟨hMarked, hMarks⟩ (fun _ => hNext (some found)) hApart

end Callees

/-! ## Calls -/

/-- **A call** binds its callee before its arguments. -/
theorem follows_inferCall {callee : tree.Id} {args : List (Argument tree.Id)}
    (hNode : tree.node i = .invocation callee args)
    (ih : ∀ c, tree.height c < tree.height i → VisitFollows config imports c)
    (receivers : List (Option TypeRef)) :
    Follows config (WithinAny (callee :: args.map (·.value))) (tree.receiversAround i) receivers
      (progressEnv i []) (progressEnv i (callee :: args.map (·.value)))
      (Logged.inferCall tree config imports i) (inferCall tree config imports receivers i) := by
  have hSplit : (tree.node i).boundParts = [] ++ callee :: args.map (·.value) := by rw [hNode]; rfl
  have hArguments := follows_bindArguments hNode ih receivers
  have hAround := receiversAround_callee hNode
  have hCallee : callee ∈ (tree.node i).children := by simp [hNode, Node.children]
  have hBelow : ∀ c, tree.height c ≤ tree.height callee → tree.height c < tree.height i :=
    fun c hc => Nat.lt_of_le_of_lt hc (height_lt_of_mem_children hCallee)
  rw [Logged.inferCall, inferCall, hNode]
  simp only
  cases hMember : tree.node (tree.stripParens callee) with
  | memberAccess receiver method =>
      have hReceiver : receiver ∈ (tree.node (tree.stripParens callee)).children := by
        simp [hMember, Node.children]
      have hReads := not_readsField_of_callee hNode
      have hVisit := ih receiver
        (hBelow _ (Nat.le_of_lt (height_lt_of_mem_children_stripParens hReceiver)))
      refine Follows.wrapperName ?_ ?_
      · have hFirst := hVisit.part hReceiver (by simp [hMember]) receivers
        rw [hAround] at hFirst
        exact Follows.part hSplit (Follows.receiver hMember hReads hFirst).stripped
          fun type => (hArguments method _).andThen fun types => Follows.pure _
      · intro fullName name hName
        have hFirst : Follows config (fun j => tree.isWithin j callee = true)
            (tree.receiversAround i) receivers (tree.envAt callee)
            (tree.leave (tree.envAt callee) callee) (Pure.pure ()) (Pure.pure ()) :=
          (Follows.receiver hMember hReads (Follows.skipName hName).stripped).stripped
        have hAll := Follows.part hSplit hFirst fun _ : Unit =>
          (hArguments method none).andThen fun types => Follows.pure
            (some (TypeRef.generic fullName [types.head?.join.getD (.named "object")]))
        exact hAll
  | identifier name =>
      exact Follows.calledName hMember hSplit ⟨rfl, rfl⟩ (fun _ => ⟨rfl, rfl⟩) fun binding =>
        (hArguments name none).discard.andThen fun _ => Follows.pure (binding.bind (·.type))
  | _ =>
    have hVisit := ih (tree.stripParens callee) (hBelow _ (height_stripParens_le callee)) receivers
    rw [hAround] at hVisit
    exact Follows.part hSplit hVisit.stripped.discard fun _ =>
      (hArguments "" none).discard.andThen fun _ => Follows.pure _

/-! ## Every node -/

/-- What visiting the parts of a node does, unless it is a conditional access. -/
abbrev PartsFollow (config : Config) (imports : Imports) (i : tree.Id)
    (receivers : List (Option TypeRef)) : Prop :=
  (tree.node i).kind ≠ .conditionalAccess → ∀ c ∈ (tree.node i).children,
    Follows config (fun j => tree.isWithin j c = true) (tree.receiversAround i) receivers
      (tree.envAt c) (tree.leave (tree.envAt c) c) (Logged.visit tree config imports c)
      (visit tree config imports receivers c)

theorem InferFollows.returnStatement {value : Option tree.Id}
    (hNode : tree.node i = .returnStatement value)
    (hPart : PartsFollow config imports i receivers) :
    InferFollows config i receivers (Logged.infer tree config imports i)
      (infer tree config imports receivers i) := by
  cases value with
  | none =>
      rw [Logged.infer, infer, hNode]
      exact InferFollows.leaf (by rw [hNode]; rfl) (by rw [hNode]; rfl) none
  | some value =>
      have hParts : (tree.node i).boundParts = [value] := by rw [hNode]; rfl
      have hEach := hPart (by simp [hNode, Node.kind])
      rw [Logged.infer, infer, hNode]
      refine InferFollows.plain (by rw [hNode]; rfl) hParts ?_
      exact Follows.part hParts (hEach value (by simp [hNode, Node.children])).discard
        fun _ => Follows.last none

theorem InferFollows.ifStatement {condition thenBranch : tree.Id} {elseBranch : Option tree.Id}
    (hNode : tree.node i = .ifStatement condition thenBranch elseBranch)
    (hPart : PartsFollow config imports i receivers) :
    InferFollows config i receivers (Logged.infer tree config imports i)
      (infer tree config imports receivers i) := by
  have hEach := hPart (by simp [hNode, Node.kind])
  have hCondition := (hEach condition (by simp [hNode, Node.children])).discard
  have hThen := (hEach thenBranch (by simp [hNode, Node.children])).discard
  cases elseBranch with
  | none =>
      have hParts : (tree.node i).boundParts = [condition, thenBranch] := by rw [hNode]; rfl
      rw [Logged.infer, infer, hNode]
      refine InferFollows.plain (by rw [hNode]; rfl) hParts ?_
      exact Follows.part hParts hCondition fun _ => Follows.part hParts hThen fun _ =>
        Follows.last none
  | some elseBranch =>
      have hParts : (tree.node i).boundParts = [condition, thenBranch, elseBranch] := by
        rw [hNode]
        rfl
      have hElse := (hEach elseBranch (by simp [hNode, Node.children])).discard
      rw [Logged.infer, infer, hNode]
      refine InferFollows.plain (by rw [hNode]; rfl) hParts ?_
      exact Follows.part hParts hCondition fun _ => Follows.part hParts hThen fun _ =>
        Follows.part hParts hElse fun _ => Follows.last none

/-- Binding all below a node follows the environments. -/
theorem inferFollows (ih : ∀ c, tree.height c < tree.height i → VisitFollows config imports c)
    (receivers : List (Option TypeRef)) :
    InferFollows config i receivers (Logged.infer tree config imports i)
      (infer tree config imports receivers i) := by
  have hVisit : ∀ c ∈ (tree.node i).children, VisitFollows config imports c := fun c hc =>
    ih c (height_lt_of_mem_children hc)
  have hPart : PartsFollow config imports i receivers := fun hKind c hc =>
    (hVisit c hc).part hc (fun _ _ h => absurd (by rw [h]; rfl) hKind) receivers
  cases hNode : tree.node i with
  | compilationUnit members => exact InferFollows.unit hNode hVisit
  | method name returnType params body isAsync => exact InferFollows.method hNode hVisit
  | block statements => exact InferFollows.block hNode hVisit
  | localDeclaration name type init => exact InferFollows.localDeclaration hNode hVisit
  | outVariable name type => exact InferFollows.outVariable hNode
  | identifier name => exact InferFollows.identifier hNode
  | memberAccess receiver member =>
      exact InferFollows.memberAccess hNode (hVisit receiver (by simp [hNode, Node.children]))
  | conditionalAccess receiver rest => exact InferFollows.conditionalAccess hNode hVisit
  | memberBinding member =>
      rw [Logged.infer, infer, hNode]
      exact InferFollows.memberBinding hNode
  | lambda params body isAsync => exact InferFollows.lambda hNode hVisit
  | invocation callee args =>
      rw [Logged.infer, infer, hNode]
      exact InferFollows.plain (by rw [hNode]; rfl) (by rw [hNode]; rfl)
        (follows_inferCall hNode ih receivers)
  | parameter name type =>
      rw [Logged.infer, infer, hNode]
      exact InferFollows.leaf (by rw [hNode]; rfl) (by rw [hNode]; rfl) type
  | this =>
      rw [Logged.infer, infer, hNode]
      exact InferFollows.leaf (by rw [hNode]; rfl) (by rw [hNode]; rfl) none
  | literal value =>
      rw [Logged.infer, infer, hNode]
      exact InferFollows.leaf (by rw [hNode]; rfl) (by rw [hNode]; rfl) (literalType value)
  | returnStatement value => exact InferFollows.returnStatement hNode hPart
  | expressionStatement expr =>
      have hParts : (tree.node i).boundParts = [expr] := by rw [hNode]; rfl
      have hEach := hPart (by simp [hNode, Node.kind])
      rw [Logged.infer, infer, hNode]
      refine InferFollows.plain (by rw [hNode]; rfl) hParts ?_
      exact Follows.part hParts (hEach expr (by simp [hNode, Node.children])).discard
        fun _ => Follows.last none
  | ifStatement condition thenBranch elseBranch => exact InferFollows.ifStatement hNode hPart
  | unary op operand =>
      have hParts : (tree.node i).boundParts = [operand] := by rw [hNode]; rfl
      have hEach := hPart (by simp [hNode, Node.kind])
      rw [Logged.infer, infer, hNode]
      refine InferFollows.plain (by rw [hNode]; rfl) hParts ?_
      refine Follows.part hParts (hEach operand (by simp [hNode, Node.children])) fun type => ?_
      cases op with
      | not => exact Follows.last _
      | negate => exact Follows.last _
  | binary op left right =>
      have hParts : (tree.node i).boundParts = [left, right] := by rw [hNode]; rfl
      have hEach := hPart (by simp [hNode, Node.kind])
      rw [Logged.infer, infer, hNode]
      refine InferFollows.plain (by rw [hNode]; rfl) hParts ?_
      exact Follows.part hParts (hEach left (by simp [hNode, Node.children])) fun type =>
        Follows.part hParts (hEach right (by simp [hNode, Node.children])).discard fun _ =>
          Follows.last _
  | isPattern operand pattern =>
      have hParts : (tree.node i).boundParts = [operand] := by rw [hNode]; rfl
      have hEach := hPart (by simp [hNode, Node.kind])
      rw [Logged.infer, infer, hNode]
      refine InferFollows.plain (by rw [hNode]; rfl) hParts ?_
      exact Follows.part hParts (hEach operand (by simp [hNode, Node.children])).discard
        fun _ => Follows.last _
  | conditional condition whenTrue whenFalse =>
      have hParts : (tree.node i).boundParts = [condition, whenTrue, whenFalse] := by
        rw [hNode]
        rfl
      have hEach := hPart (by simp [hNode, Node.kind])
      rw [Logged.infer, infer, hNode]
      refine InferFollows.plain (by rw [hNode]; rfl) hParts ?_
      exact Follows.part hParts (hEach condition (by simp [hNode, Node.children])).discard fun _ =>
        Follows.part hParts (hEach whenTrue (by simp [hNode, Node.children])) fun type =>
          Follows.part hParts (hEach whenFalse (by simp [hNode, Node.children])) fun other =>
            Follows.last _
  | await operand =>
      have hParts : (tree.node i).boundParts = [operand] := by rw [hNode]; rfl
      have hEach := hPart (by simp [hNode, Node.kind])
      rw [Logged.infer, infer, hNode]
      refine InferFollows.plain (by rw [hNode]; rfl) hParts ?_
      refine Follows.part hParts (hEach operand (by simp [hNode, Node.children])) fun type => ?_
      cases type with
      | none => exact Follows.last _
      | some type => exact Follows.last _
  | parenthesized inner =>
      have hParts : (tree.node i).boundParts = [inner] := by rw [hNode]; rfl
      have hEach := hPart (by simp [hNode, Node.kind])
      rw [Logged.infer, infer, hNode]
      refine InferFollows.plain (by rw [hNode]; rfl) hParts ?_
      exact Follows.lastPart hParts (hEach inner (by simp [hNode, Node.children]))

/-- **Every visit follows the environments,** with the receivers around the node on the stack. -/
theorem visitFollows (config : Config) (imports : Imports) (i : tree.Id) :
    VisitFollows config imports i := by
  induction hHeight : tree.height i using Nat.strongRecOn generalizing i with
  | ind height ih =>
      exact visitFollows_of_inferFollows (inferFollows fun c hc => ih _ (hHeight ▸ hc) c rfl)

/-! ## The whole run -/

theorem ready_initial : Ready config (fun j => tree.isWithin j tree.root = true)
    (tree.receiversAround tree.root) [] (tree.envAt tree.root) (Logged.initial tree) where
  sound := ⟨fun j symbol hSymbol =>
    absurd ((Oracle.symbolOf_empty j).symm.trans hSymbol) (by simp), by simp [Logged.initial]⟩
  unbound j _ := ⟨fun symbol hSymbol =>
      absurd ((Oracle.symbolOf_empty j).symm.trans hSymbol) (by simp),
    fun type hType => absurd ((Oracle.typeOf_empty j).symm.trans hType) (by simp)⟩
  unvisited := by simp [Logged.initial]
  tracks := by
    rw [envAt_of_parent_none tree.parent_root]
    exact ⟨fun _ => .none, .nil, fun _ => .none⟩
  stack := rfl
  computed := by
    rw [receiversAround_of_parent_none tree.parent_root]
    exact .nil

/-- **A whole run follows the environments,** and knows in the end what the binder knows. -/
theorem hasFollowed_run (tree : Tree) (config : Config) (imports : Imports) :
    HasFollowed config (fun j => tree.isWithin j tree.root = true)
        (tree.leave (tree.envAt tree.root) tree.root) (Logged.initial tree)
        (Logged.run tree config imports) ∧
      (Logged.run tree config imports).state.oracle = bindWith tree config imports := by
  have h := visitFollows config imports tree.root [] _ ready_initial
  exact ⟨h.1, congrArg State.oracle h.2.2⟩

end StateGuard.Binder
