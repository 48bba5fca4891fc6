import StateGuard.Proofs.Semantics.Agreement

/-!
# Binding corresponding trees

The binder treats corresponding trees alike: what it knows about a node and about its counterpart is
the same, up to the numbers in the symbols.  A body that differs makes no difference outside, since
it leaves everything there as it was.

## Main results

* `simulates_visit`: visiting a node and its counterpart.
* `typeOf_bind_map`, `sameSymbol_bind_map`: what the oracles of corresponding trees say.
* `Tree.bind_eq`: the oracle of a program does not depend on places.
-/

namespace StateGuard

/-- Configurations by which types and names have the same meaning. -/
structure Config.TypesLike (c d : Config) : Prop where
  families : d.families = c.families
  asyncWrappers : d.asyncWrappers = c.asyncWrappers
  projectionMethods : d.pipeline.projectionMethods = c.pipeline.projectionMethods
  dispatchMethods : d.callContexts.dispatchMethods = c.callContexts.dispatchMethods
  okArgumentNames : d.callContexts.okArgumentNames = c.callContexts.okArgumentNames
  notOkArgumentNames : d.callContexts.notOkArgumentNames = c.callContexts.notOkArgumentNames

namespace Config.TypesLike

variable {c d : Config} (h : c.TypesLike d)
include h

theorem imports : Imports.ofConfig d = Imports.ofConfig c := by
  rw [Imports.ofConfig, Imports.ofConfig, h.families, h.asyncWrappers]

theorem familyOf (type : TypeRef) : Binder.familyOf? d type = Binder.familyOf? c type := by
  rw [Binder.familyOf?, Binder.familyOf?, h.families]

theorem memberType (receiver : Option TypeRef) (member : String) :
    Binder.memberType d receiver member = Binder.memberType c receiver member := by
  simp only [Binder.memberType, h.familyOf]

theorem callType (receiver : Option TypeRef) (method : String) (args : List (Option TypeRef)) :
    Binder.callType d receiver method args = Binder.callType c receiver method args := by
  have hFamily : Binder.familyOf? d = Binder.familyOf? c := funext h.familyOf
  rw [Binder.callType, Binder.callType, Binder.isTryAccessor, Binder.isTryAccessor,
    Pipeline.isProjection, Pipeline.isProjection, hFamily, h.projectionMethods]

theorem dispatchState (name : Option String) (position : Nat) :
    d.callContexts.dispatchState? name position = c.callContexts.dispatchState? name position := by
  unfold CallContexts.dispatchState?
  rw [h.okArgumentNames, h.notOkArgumentNames]

theorem receivesElement (method : String) (name : Option String) (position : Nat) :
    Binder.receivesElement d method name position =
      Binder.receivesElement c method name position := by
  simp only [Binder.receivesElement, CallContexts.isDispatch, h.dispatchMethods, h.dispatchState]

theorem isAsyncWrapper (name : String) : d.isAsyncWrapper name = c.isAsyncWrapper name := by
  rw [Config.isAsyncWrapper, Config.isAsyncWrapper, h.asyncWrappers]

end Config.TypesLike

namespace Binder

open Arena

variable {A B : Tree} {e : Embedding A.toArena B.toArena}

/-! ## Visiting a node and its counterpart -/

section Visit

variable {c d : Config} (hConfig : c.TypesLike d)

theorem simulates_declareParameter {param : A.Id} (hParam : e.kept param = true)
    (inferred : Option TypeRef) : Simulates e Eq (declareParameter A param inferred)
      (declareParameter B (e.map param) inferred) := by
  unfold declareParameter
  rw [e.node_map hParam]
  cases A.node param with
  | parameter name type => exact (Simulates.declare hParam name _).discard
  | _ =>
      simp only [Node.map_localDeclaration, Node.map_returnStatement, Node.map_ifStatement]
      exact Simulates.pure rfl

theorem simulates_declareParameters {params : List A.Id} (hParams : ∀ p ∈ params, e.kept p = true)
    (element : Option TypeRef) : Simulates e Eq (declareParameters A params element)
      (declareParameters B (params.map e.map) element) := by
  cases params with
  | nil => exact Simulates.pure rfl
  | cons first rest =>
      refine (simulates_declareParameter (hParams first List.mem_cons_self) element).bindSame
        fun _ => ?_
      exact Simulates.forM fun p hp =>
        simulates_declareParameter (hParams p (List.mem_cons_of_mem first hp)) none

theorem simulates_declareMember {member : A.Id} (hMember : e.kept member = true) :
    Simulates e Eq (declareMember A member) (declareMember B (e.map member)) := by
  unfold declareMember
  rw [e.node_map hMember]
  cases A.node member with
  | method name returnType params body isAsync =>
      rw [Node.map_method]
      exact (Simulates.declare hMember name returnType).discard
  | localDeclaration name type init =>
      rw [Node.map_localDeclaration]
      refine (Simulates.declare hMember name type).bind fun b b' hBinding => ?_
      intro s t hAgree
      exact ⟨rfl, ⟨hAgree.fields.insert name hBinding, hAgree.typeOf, hAgree.symbolOf⟩,
        hAgree.innermost, hAgree.outer⟩
  | _ =>
      simp only [Node.map_returnStatement, Node.map_ifStatement]
      exact Simulates.pure rfl

include hConfig in
theorem simulates_wrapperName (imports : Imports) {receiver : A.Id} (hReceiver : e.Whole receiver) :
    Simulates e Eq (wrapperName? A c imports receiver)
      (wrapperName? B d imports (e.map receiver)) := by
  unfold wrapperName?
  rw [Embedding.node_stripParens_map hReceiver]
  cases A.node (A.stripParens receiver) with
  | identifier name =>
      refine (Simulates.lookup name).bind fun found found' hFound => ?_
      cases hFound with
      | some _ => exact Simulates.pure rfl
      | none =>
          rw [hConfig.families]
          exact Simulates.pure rfl
  | _ =>
      simp only [Node.map_localDeclaration, Node.map_returnStatement, Node.map_ifStatement]
      exact Simulates.pure rfl

include hConfig in
theorem outVariableType_map {oracle : Oracle A.size} {oracle' : Oracle B.size}
    (hTypes : ∀ i, e.kept i = true → oracle'.typeOf (e.map i) = oracle.typeOf i) {i : A.Id}
    (hi : e.kept i = true) :
    outVariableType B d oracle' (e.map i) = outVariableType A c oracle i := by
  unfold outVariableType
  rw [e.parent_map hi]
  cases hParent : A.parent i with
  | none => rfl
  | some call =>
      have hCall := e.kept_parent hi hParent
      simp only [Option.map_some, Option.bind_eq_bind, Option.bind_some, e.node_map hCall]
      cases hNode : A.node call with
      | invocation callee args =>
          have hWhole : e.Whole call := Embedding.whole_of_kept hCall (by rw [hNode]; rfl)
          have hCallee : e.Whole callee := hWhole.part (by simp [hNode, Node.children])
          simp only [Node.map_invocation, Embedding.node_stripParens_map hCallee]
          cases hStripped : A.node (A.stripParens callee) with
          | memberAccess receiver member =>
              have hReceiver := hCallee.stripParens.part
                (show receiver ∈ (A.node (A.stripParens callee)).children by
                  simp [hStripped, Node.children])
              have hFamily : familyOf? d = familyOf? c := funext hConfig.familyOf
              simp only [Node.map_memberAccess, hTypes receiver hReceiver.kept, hFamily]
          | _ => simp
      | _ => simp

/-- Outside the root, visiting stays within the innermost scope. -/
theorem stays_of_ne_root {tree : Tree} (hProgram : tree.IsProgram) (config : Config)
    (imports : Imports) {i : tree.Id} (hi : i ≠ tree.root) (receivers : List (Option TypeRef)) :
    Stays (fun j => tree.isWithin j i = true) (visit tree config imports receivers i) := by
  apply stays_visit config imports
  intro j hj hUnit
  obtain rfl := hProgram.eq_root hUnit
  exact hi (isWithin_antisymm (hProgram.connected i) hj)

variable (hA : A.IsProgram) (hB : B.IsProgram) {i : A.Id}

/-- Visiting a node and its counterpart. -/
def VisitSimulates (e : Embedding A.toArena B.toArena) (c d : Config) (imports : Imports)
    (i : A.Id) : Prop :=
  ∀ receivers, Simulates e Eq (visit A c imports receivers i)
    (visit B d imports receivers (e.map i))

variable {imports : Imports} (receivers : List (Option TypeRef))

include hA hB in
/-- A lambda, whatever the type its first parameter takes. -/
theorem simulates_lambda {params : List A.Id} {body : A.Id} {isAsync : Bool}
    (hWhole : e.Whole i) (hNode : A.node i = .lambda params body isAsync)
    (hBody : VisitSimulates e c d imports body) (element : Option TypeRef) :
    Simulates e Eq
      (inScope (declareParameters A params element >>= fun _ => visit A c imports receivers body))
      (inScope (declareParameters B (params.map e.map) element >>= fun _ =>
        visit B d imports receivers (e.map body))) := by
  have hParams : ∀ p ∈ params, e.kept p = true := fun p hp =>
    (hWhole.part (by simp [hNode, Node.children, hp])).kept
  have hMem : body ∈ (A.node i).children := by simp [hNode, Node.children]
  have hMem' : e.map body ∈ (B.node (e.map i)).children := by
    rw [hWhole.node, hNode, Node.map_lambda]
    simp [Node.children]
  have hStays := stays_of_ne_root hA c imports (ne_root_of_mem_children hMem) receivers
  have hStays' := stays_of_ne_root hB d imports (ne_root_of_mem_children hMem') receivers
  apply Simulates.inScope
  · exact (Stays.declareParameters (fun _ _ => trivial) element).bind fun _ =>
      hStays.widen fun _ _ => trivial
  · exact (Stays.declareParameters (fun _ _ => trivial) element).bind fun _ =>
      hStays'.widen fun _ _ => trivial
  · intro s t hAgree
    have h := (simulates_declareParameters hParams element).bindSame (fun _ => hBody receivers) s t
      hAgree
    exact ⟨h.1, h.2.toSameKnowledge⟩

/-- The arguments of a call, each with its position. -/
theorem bindArguments_eq_mapM {tree : Tree} {config : Config} {i callee : tree.Id}
    {args : List (Argument tree.Id)} (hNode : tree.node i = .invocation callee args)
    (method : String) (element : Option TypeRef) :
    bindArguments tree config imports receivers i method element =
      args.zipIdx.mapM fun x => bindArgument config imports receivers method element x.1 x.2 := by
  have hArgs : args.zipIdx = args.attach.zipIdx.map (Prod.map Subtype.val id) := by
    rw [← List.zipIdx_map, List.attach_map_subtype_val]
  rw [bindArguments_eq hNode, hArgs, List.mapM_map]
  rfl

section Calls

variable {callee : A.Id} {args : List (Argument A.Id)} (hWhole : e.Whole i)
  (hNode : A.node i = .invocation callee args)
  (ih : ∀ k, A.height k < A.height i → e.kept k = true → k ≠ A.root →
    VisitSimulates e c d imports k)
include hConfig hA hB hWhole hNode ih

theorem simulates_bindArguments (method : String) (element : Option TypeRef) :
    Simulates e Eq (bindArguments A c imports receivers i method element)
      (bindArguments B d imports receivers (e.map i) method element) := by
  have hNode' : B.node (e.map i) = .invocation (e.map callee) (args.map (·.map e.map)) := by
    rw [hWhole.node, hNode, Node.map_invocation]
  rw [bindArguments_eq_mapM receivers hNode, bindArguments_eq_mapM receivers hNode',
    List.zipIdx_map]
  apply Simulates.mapM
  rintro ⟨arg, position⟩ hMem
  have hArg : arg.value ∈ (A.node i).children := by
    rw [hNode]
    exact List.mem_cons_of_mem _ (List.mem_map_of_mem (List.fst_mem_of_mem_zipIdx hMem))
  have hValue : e.Whole arg.value := hWhole.part hArg
  have hHeight := height_lt_of_mem_children hArg
  simp only [Prod.map_apply, id_eq, bindArgument, Argument.map, hConfig.receivesElement, hValue.node]
  cases hLambda : A.node arg.value with
  | lambda params body isAsync =>
      have hBody : body ∈ (A.node arg.value).children := by simp [hLambda, Node.children]
      have hVisit := ih body (Nat.lt_trans (height_lt_of_mem_children hBody) hHeight)
        (hValue.part hBody).kept (ne_root_of_mem_children hBody)
      rw [Node.map_lambda]
      exact simulates_lambda hA hB receivers hValue hLambda hVisit _
  | _ =>
      have hVisit := ih _ hHeight hValue.kept (ne_root_of_mem_children hArg) receivers
      simp only [Node.map_localDeclaration, Node.map_returnStatement, Node.map_ifStatement,
        Node.map_invocation, Node.map_method, Node.map_block, Node.map_compilationUnit]
      exact hVisit

theorem simulates_inferCall : Simulates e Eq (inferCall A c imports receivers i)
    (inferCall B d imports receivers (e.map i)) := by
  have hArguments := simulates_bindArguments hConfig hA hB receivers hWhole hNode ih
  have hMem : callee ∈ (A.node i).children := by simp [hNode, Node.children]
  have hCallee : e.Whole callee := hWhole.part hMem
  have hNode' : B.node (e.map i) = .invocation (e.map callee) (args.map (·.map e.map)) := by
    rw [hWhole.node, hNode, Node.map_invocation]
  have hBelow : ∀ k, A.isWithin k (A.stripParens callee) = true → A.height k < A.height i ∧
      e.kept k = true ∧ k ≠ A.root := by
    intro k hk
    have hk' := isWithin_trans hk (isWithin_stripParens callee)
    have hDepth := depth_lt_of_isWithin_part hMem hk'
    have hBound := A.depth_le_size k
    refine ⟨?_, hCallee k hk', ?_⟩
    · unfold Arena.height
      omega
    · rintro rfl
      exact ne_root_of_mem_children hMem (isWithin_antisymm (hA.connected callee) hk')
  obtain ⟨hLt, hKept, hRoot⟩ := hBelow (A.stripParens callee) (isWithin_self _)
  have hOther := (ih _ hLt hKept hRoot receivers).discard.bindSame fun _ =>
    (hArguments "" none).discard.bindSame fun _ =>
      Simulates.pure (R := Eq) (rfl : (none : Option TypeRef) = none)
  rw [inferCall, inferCall, hNode, hNode']
  dsimp only
  rw [Embedding.stripParens_map hCallee, hCallee.stripParens.node]
  cases hStripped : A.node (A.stripParens callee) with
  | memberAccess receiver method =>
      have hReceiver : receiver ∈ (A.node (A.stripParens callee)).children := by
        simp [hStripped, Node.children]
      obtain ⟨hLt', hKept', hRoot'⟩ := hBelow receiver (isWithin_of_mem_children hReceiver)
      have hVisit := ih receiver hLt' hKept' hRoot' receivers
      rw [Node.map_memberAccess]
      refine (simulates_wrapperName hConfig imports
        (hCallee.stripParens.part hReceiver)).bindSame fun found => ?_
      cases found with
      | some fullName => exact (hArguments method none).bindSame fun _ => Simulates.pure rfl
      | none =>
          refine hVisit.bindSame fun type => (hArguments method _).bindSame fun types => ?_
          exact Simulates.pure (hConfig.callType type method types).symm
  | identifier name =>
      rw [Node.map_identifier]
      refine (Simulates.lookup name).bind fun found found' hFound => ?_
      have hRest : ∀ type : Option TypeRef, Simulates e Eq
          (discard (bindArguments A c imports receivers i name none) >>= fun _ => Pure.pure type)
          (discard (bindArguments B d imports receivers (e.map i) name none) >>= fun _ =>
            Pure.pure type) :=
        fun type => (hArguments name none).discard.bindSame fun _ => Simulates.pure rfl
      cases hFound with
      | none => exact hRest none
      | some hBinding =>
          refine (Simulates.mark hKept hBinding.symbol).bindSame fun _ => ?_
          simp only [Option.bind_some, hBinding.type]
          exact hRest _
  | localDeclaration name type init =>
      rw [Node.map_localDeclaration]
      exact hOther
  | returnStatement value =>
      rw [Node.map_returnStatement]
      exact hOther
  | ifStatement condition thenBranch elseBranch =>
      rw [Node.map_ifStatement]
      exact hOther
  | _ => exact hOther

end Calls

/-- A body that differs makes no difference outside. -/
theorem SameKnowledge.frame {s s' : State A.size} {t t' : State B.size} {body : A.Id}
    (h : SameKnowledge e s t) (hKept : e.kept body = false) (hImage : e.image (e.map body) = false)
    (hLeaves : Leaves (fun j => A.isWithin j body = true) s s')
    (hLeaves' : Leaves (fun k => B.isWithin k (e.map body) = true) t t') :
    SameKnowledge e s' t' := by
  have hOut : ∀ i, e.kept i = true → ¬ A.isWithin i body = true := by
    intro i hi hWithin
    simp [Embedding.not_kept_within hKept hWithin] at hi
  have hOut' : ∀ i, e.kept i = true → ¬ B.isWithin (e.map i) (e.map body) = true := by
    intro i hi hWithin
    have hMap := e.image_map hi
    simp [Embedding.not_image_within hImage hWithin] at hMap
  refine ⟨?_, ?_, ?_⟩
  · rw [hLeaves.fields, hLeaves'.fields]
    exact h.fields
  · intro i hi
    rw [hLeaves.typeOf i (hOut i hi), hLeaves'.typeOf _ (hOut' i hi)]
    exact h.typeOf i hi
  · intro i hi
    rw [hLeaves.symbolOf i (hOut i hi), hLeaves'.symbolOf _ (hOut' i hi)]
    exact h.symbolOf i hi

include hA hB in
/-- **A method,** whether its body differs or not. -/
theorem simulates_method {name : String} {returnType : Option TypeRef} {params : List A.Id}
    {body : A.Id} {isAsync : Bool} (hi : e.kept i = true)
    (hNode : A.node i = .method name returnType params body isAsync)
    (hBody : e.kept body = true → VisitSimulates e c d imports body) :
    Simulates e Eq (infer A c imports receivers i) (infer B d imports receivers (e.map i)) := by
  have hNode' : B.node (e.map i) =
      .method name returnType (params.map e.map) (e.map body) isAsync := by
    rw [e.node_map hi, hNode, Node.map_method]
  have hMem : body ∈ (A.node i).children := by simp [hNode, Node.children]
  have hMem' : e.map body ∈ (B.node (e.map i)).children := by simp [hNode', Node.children]
  have hStays := stays_of_ne_root hA c imports (ne_root_of_mem_children hMem) receivers
  have hStays' := stays_of_ne_root hB d imports (ne_root_of_mem_children hMem') receivers
  have hParams : ∀ p ∈ params, e.kept p = true := by
    intro p hp
    rcases e.kept_part hi (show p ∈ (A.node i).children by simp [hNode, Node.children, hp]) with
      hKept | ⟨-, _, _, _, _, hMethod⟩
    · exact hKept
    · -- the body of a method is none of its parameters
      have hNodup := A.children_nodup i
      rw [hNode] at hMethod hNodup
      obtain ⟨-, -, -, rfl, -⟩ := Node.method.inj hMethod
      exact absurd rfl ((List.nodup_append.1 hNodup).2.2 _ hp _ List.mem_cons_self)
  have hDeclare : Simulates e Eq (params.forM fun p => declareParameter A p none)
      ((params.map e.map).forM fun p => declareParameter B p none) :=
    Simulates.forM fun p hp => simulates_declareParameter (hParams p hp) none
  rw [infer, infer, hNode, hNode']
  refine Simulates.bindSame ?_ fun _ => Simulates.pure rfl
  apply Simulates.inScope
  · exact (Stays.forM fun p _ => Stays.declareParameter trivial none).bind fun _ =>
      (hStays.map _).widen fun _ _ => trivial
  · exact (Stays.forM fun p _ => Stays.declareParameter trivial none).bind fun _ =>
      (hStays'.map _).widen fun _ _ => trivial
  · intro s t hAgree
    cases hKept : e.kept body with
    | true =>
        have h := hDeclare.bindSame (fun _ => (hBody hKept receivers).discard) s t hAgree
        exact ⟨h.1, h.2.toSameKnowledge⟩
    | false =>
        have hImage : e.image (e.map body) = false := by
          rcases e.kept_part hi hMem with hTrue | ⟨hImage, -⟩
          · simp [hKept] at hTrue
          · exact hImage
        have hAfter := (hDeclare s t hAgree).2
        exact ⟨rfl, hAfter.toSameKnowledge.frame hKept hImage (hStays _) (hStays' _)⟩

/-- Parts are visited one after the other. -/
theorem simulates_forM_visit {parts : List A.Id}
    (h : ∀ k ∈ parts, VisitSimulates e c d imports k) :
    Simulates e Eq (parts.attach.forM fun k => discard (visit A c imports receivers k.1))
      ((parts.map e.map).attach.forM fun k => discard (visit B d imports receivers k.1)) := by
  rw [forM_attach parts fun k => discard (visit A c imports receivers k),
    forM_attach (parts.map e.map) fun k => discard (visit B d imports receivers k)]
  exact Simulates.forM fun k hk => (h k hk receivers).discard

include hA hB in
/-- The names declared in a block are forgotten at its end, here and there. -/
theorem simulates_block {statements : List A.Id} (hWhole : e.Whole i)
    (hNode : A.node i = .block statements)
    (hPart : ∀ k ∈ statements, VisitSimulates e c d imports k) :
    Simulates e Eq (infer A c imports receivers i) (infer B d imports receivers (e.map i)) := by
  have hNode' : B.node (e.map i) = .block (statements.map e.map) := by
    rw [hWhole.node, hNode, Node.map_block]
  have hStays : ∀ k ∈ statements, Stays (fun _ => True) (visit A c imports receivers k) := by
    intro k hk
    have hMem : k ∈ (A.node i).children := by rw [hNode]; exact hk
    exact (stays_of_ne_root hA c imports (ne_root_of_mem_children hMem) receivers).widen
      fun _ _ => trivial
  have hStays' : ∀ k ∈ statements.map e.map,
      Stays (fun _ => True) (visit B d imports receivers k) := by
    intro k hk
    have hMem : k ∈ (B.node (e.map i)).children := by rw [hNode']; exact hk
    exact (stays_of_ne_root hB d imports (ne_root_of_mem_children hMem) receivers).widen
      fun _ _ => trivial
  rw [infer, infer, hNode, hNode']
  refine Simulates.bindSame ?_ fun _ => Simulates.pure rfl
  apply Simulates.inScope
  · exact Stays.forM fun k _ => (hStays k.1 k.2).map _
  · exact Stays.forM fun k _ => (hStays' k.1 k.2).map _
  · intro s t hAgree
    have h := simulates_forM_visit receivers hPart s t hAgree
    exact ⟨h.1, h.2.toSameKnowledge⟩

include hConfig in
/-- A member of the object itself is a field, any other has the type of its member. -/
theorem simulates_memberAccess {receiver : A.Id} {member : String} (hWhole : e.Whole i)
    (hNode : A.node i = .memberAccess receiver member)
    (hPart : VisitSimulates e c d imports receiver) :
    Simulates e Eq (infer A c imports receivers i) (infer B d imports receivers (e.map i)) := by
  have hNode' : B.node (e.map i) = .memberAccess (e.map receiver) member := by
    rw [hWhole.node, hNode, Node.map_memberAccess]
  have hReceiver : e.Whole receiver := hWhole.part (by simp [hNode, Node.children])
  rw [infer, infer, hNode, hNode']
  refine (hPart receivers).bindSame fun type => ?_
  rw [Embedding.isThis_map hReceiver, hConfig.memberType]
  split
  · refine Simulates.get fun s t hAgree => ?_
    have hField := hAgree.fields member
    generalize s.fields.find? member = field at hField
    generalize t.fields.find? member = field' at hField
    cases hField with
    | none => exact Simulates.pure rfl
    | some hBinding =>
        exact (Simulates.mark hWhole.kept hBinding.symbol).bindSame fun _ =>
          Simulates.pure hBinding.type.symm
  · exact Simulates.pure rfl

include hConfig hA hB in
theorem simulates_inner (hWhole : e.Whole i) (hInner : (A.node i).kind.isInner = true)
    (ih : ∀ k, A.height k < A.height i → e.kept k = true → k ≠ A.root →
      VisitSimulates e c d imports k) :
    Simulates e Eq (infer A c imports receivers i) (infer B d imports receivers (e.map i)) := by
  have hPart : ∀ k ∈ (A.node i).children, VisitSimulates e c d imports k := fun k hk =>
    ih k (height_lt_of_mem_children hk) (hWhole.part hk).kept (ne_root_of_mem_children hk)
  have hi := hWhole.kept
  have hNode' := hWhole.node
  cases hNode : A.node i with
  | compilationUnit members => simp [hNode, Node.kind, NodeKind.isInner] at hInner
  | method name returnType params body isAsync =>
      simp [hNode, Node.kind, NodeKind.isInner] at hInner
  | invocation callee args =>
      rw [hNode, Node.map_invocation] at hNode'
      rw [infer, infer, hNode, hNode']
      exact simulates_inferCall hConfig hA hB receivers hWhole hNode ih
  | lambda params body isAsync =>
      have hLambda := simulates_lambda hA hB receivers hWhole hNode
        (hPart body (by simp [hNode, Node.children])) none
      rw [hNode, Node.map_lambda] at hNode'
      rw [infer, infer, hNode, hNode']
      exact hLambda.bindSame fun _ => Simulates.pure rfl
  | block statements =>
      rw [hNode] at hPart
      exact simulates_block hA hB receivers hWhole hNode hPart
  | localDeclaration name type init =>
      rw [hNode, Node.map_localDeclaration] at hNode'
      cases init with
      | none =>
          rw [infer, infer, hNode, hNode']
          exact (Simulates.declare hi name type).discard.bindSame fun _ => Simulates.pure rfl
      | some init =>
          rw [hNode] at hPart
          rw [infer, infer, hNode, hNode']
          exact (hPart init (by simp [Node.children]) receivers).bindSame fun _ =>
            (Simulates.declare hi name _).discard.bindSame fun _ => Simulates.pure rfl
  | outVariable name type =>
      rw [hNode, Node.map_outVariable] at hNode'
      rw [infer, infer, hNode, hNode']
      refine Simulates.get fun s t hAgree => ?_
      rw [outVariableType_map hConfig hAgree.typeOf hi]
      exact (Simulates.declare hi name _).discard.bindSame fun _ => Simulates.pure rfl
  | identifier name =>
      rw [hNode, Node.map_identifier] at hNode'
      rw [infer, infer, hNode, hNode']
      refine (Simulates.lookup name).bind fun found found' hFound => ?_
      cases hFound with
      | none => exact Simulates.pure rfl
      | some hBinding =>
          exact (Simulates.mark hi hBinding.symbol).bindSame fun _ =>
            Simulates.pure hBinding.type.symm
  | memberAccess receiver member =>
      rw [hNode] at hPart
      exact simulates_memberAccess hConfig receivers hWhole hNode
        (hPart receiver (by simp [Node.children]))
  | conditionalAccess receiver rest =>
      rw [hNode, Node.map_conditionalAccess] at hNode'
      rw [hNode] at hPart
      rw [infer, infer, hNode, hNode']
      exact (hPart receiver (by simp [Node.children]) receivers).bindSame fun type =>
        hPart rest (by simp [Node.children]) _
  | ifStatement condition thenBranch elseBranch =>
      rw [hNode, Node.map_ifStatement] at hNode'
      rw [hNode] at hPart
      have hCondition := hPart condition (by simp [Node.children]) receivers
      have hThen := hPart thenBranch (by simp [Node.children]) receivers
      cases elseBranch with
      | none =>
          rw [infer, infer, hNode, hNode']
          exact hCondition.discard.bindSame fun _ => hThen.discard.bindSame fun _ =>
            Simulates.pure rfl
      | some elseBranch =>
          have hElse := hPart elseBranch (by simp [Node.children]) receivers
          rw [infer, infer, hNode, hNode']
          exact hCondition.discard.bindSame fun _ => hThen.discard.bindSame fun _ =>
            hElse.discard.bindSame fun _ => Simulates.pure rfl
  | returnStatement value =>
      rw [hNode, Node.map_returnStatement] at hNode'
      cases value with
      | none =>
          rw [infer, infer, hNode, hNode']
          exact Simulates.pure rfl
      | some value =>
          rw [hNode] at hPart
          rw [infer, infer, hNode, hNode']
          exact (hPart value (by simp [Node.children]) receivers).discard.bindSame fun _ =>
            Simulates.pure rfl
  | expressionStatement expr =>
      rw [hNode, Node.map_expressionStatement] at hNode'
      rw [hNode] at hPart
      rw [infer, infer, hNode, hNode']
      exact (hPart expr (by simp [Node.children]) receivers).discard.bindSame fun _ =>
        Simulates.pure rfl
  | unary op operand =>
      rw [hNode, Node.map_unary] at hNode'
      rw [hNode] at hPart
      rw [infer, infer, hNode, hNode']
      refine (hPart operand (by simp [Node.children]) receivers).bindSame fun type => ?_
      cases op with
      | not => exact Simulates.pure rfl
      | negate => exact Simulates.pure rfl
  | binary op left right =>
      rw [hNode, Node.map_binary] at hNode'
      rw [hNode] at hPart
      rw [infer, infer, hNode, hNode']
      exact (hPart left (by simp [Node.children]) receivers).bindSame fun _ =>
        (hPart right (by simp [Node.children]) receivers).discard.bindSame fun _ =>
          Simulates.pure rfl
  | isPattern operand pattern =>
      rw [hNode, Node.map_isPattern] at hNode'
      rw [hNode] at hPart
      rw [infer, infer, hNode, hNode']
      exact (hPart operand (by simp [Node.children]) receivers).discard.bindSame fun _ =>
        Simulates.pure rfl
  | conditional condition whenTrue whenFalse =>
      rw [hNode, Node.map_conditional] at hNode'
      rw [hNode] at hPart
      rw [infer, infer, hNode, hNode']
      exact (hPart condition (by simp [Node.children]) receivers).discard.bindSame fun _ =>
        (hPart whenTrue (by simp [Node.children]) receivers).bindSame fun _ =>
          (hPart whenFalse (by simp [Node.children]) receivers).bindSame fun _ =>
            Simulates.pure rfl
  | await operand =>
      rw [hNode, Node.map_await] at hNode'
      rw [hNode] at hPart
      rw [infer, infer, hNode, hNode']
      refine (hPart operand (by simp [Node.children]) receivers).bindSame fun type => ?_
      cases type with
      | none => exact Simulates.pure rfl
      | some type =>
          have hAsync := hConfig.isAsyncWrapper type.name
          exact Simulates.pure (by rw [hAsync])
  | parenthesized inner =>
      rw [hNode, Node.map_parenthesized] at hNode'
      rw [hNode] at hPart
      rw [infer, infer, hNode, hNode']
      exact hPart inner (by simp [Node.children]) receivers
  | memberBinding member =>
      rw [hNode, Node.map_memberBinding] at hNode'
      rw [infer, infer, hNode, hNode']
      exact Simulates.pure (hConfig.memberType _ _).symm
  | parameter name type =>
      rw [hNode, Node.map_parameter] at hNode'
      rw [infer, infer, hNode, hNode']
      exact Simulates.pure rfl
  | this =>
      rw [hNode, Node.map_this] at hNode'
      rw [infer, infer, hNode, hNode']
      exact Simulates.pure rfl
  | literal value =>
      rw [hNode, Node.map_literal] at hNode'
      rw [infer, infer, hNode, hNode']
      exact Simulates.pure rfl

include hConfig hA hB in
theorem simulates_infer (hi : e.kept i = true)
    (ih : ∀ k, A.height k < A.height i → e.kept k = true → k ≠ A.root →
      VisitSimulates e c d imports k) :
    Simulates e Eq (infer A c imports receivers i) (infer B d imports receivers (e.map i)) := by
  by_cases hInner : (A.node i).kind.isInner = true
  · exact simulates_inner hConfig hA hB receivers (Embedding.whole_of_kept hi hInner) hInner ih
  · have hVisit : ∀ k ∈ (A.node i).children, e.kept k = true → VisitSimulates e c d imports k :=
      fun k hk hKept => ih k (height_lt_of_mem_children hk) hKept (ne_root_of_mem_children hk)
    cases hNode : A.node i with
    | compilationUnit members =>
        have hKept : ∀ m ∈ members, e.kept m = true := by
          intro m hm
          rcases e.kept_part hi (show m ∈ (A.node i).children by rw [hNode]; exact hm) with
            hKept | ⟨-, _, _, _, _, hMethod⟩
          · exact hKept
          · simp [hNode] at hMethod
        have hNode' := e.node_map hi
        rw [hNode, Node.map_compilationUnit] at hNode'
        rw [hNode] at hVisit
        rw [infer, infer, hNode, hNode']
        refine (Simulates.forM fun m hm => simulates_declareMember (hKept m hm)).bindSame fun _ => ?_
        exact (simulates_forM_visit receivers fun m hm => hVisit m hm (hKept m hm)).bindSame fun _ =>
          Simulates.pure rfl
    | method name returnType params body isAsync =>
        exact simulates_method hA hB receivers hi hNode (hVisit body (by simp [hNode, Node.children]))
    | _ => simp [hNode, Node.kind, NodeKind.isInner] at hInner

include hConfig hA hB in
/-- **Visiting a node and its counterpart** does the same. -/
theorem simulates_visit (imports : Imports) (hi : e.kept i = true) :
    VisitSimulates e c d imports i := by
  induction hHeight : A.height i using Nat.strongRecOn generalizing i with
  | ind height ih =>
      intro receivers
      have hBelow : ∀ k, A.height k < A.height i → e.kept k = true → k ≠ A.root →
          VisitSimulates e c d imports k :=
        fun k hLt hk _ => ih _ (hHeight ▸ hLt) hk rfl
      rw [visit, visit]
      exact (simulates_infer hConfig hA hB receivers hi hBelow).bindSame fun type =>
        (Simulates.record hi type).bindSame fun _ => Simulates.pure rfl

end Visit

/-! ## Oracles of corresponding trees -/

section Oracles

variable {c d : Config} (hConfig : c.TypesLike d) (hA : A.IsProgram) (hB : B.IsProgram)
  {i j : A.Id}
include hConfig hA hB

/-- The binder knows the same about corresponding trees. -/
theorem sameKnowledge_bind : SameKnowledge e
    ((visit A c (.ofConfig c) [] A.root).run ⟨.empty, [], .empty A.size⟩).2
    ((visit B d (.ofConfig d) [] B.root).run ⟨.empty, [], .empty B.size⟩).2 := by
  have hStart : Agree e ⟨.empty, [], .empty A.size⟩ ⟨.empty, [], .empty B.size⟩ := by
    refine ⟨⟨SameScope.nil, ?_, ?_⟩, SameScope.nil, .nil⟩
    · intro i _
      simp
    · intro i _
      simp only [Oracle.symbolOf_empty]
      exact .none
  rw [hConfig.imports, ← e.map_root]
  exact (simulates_visit hConfig hA hB _ e.kept_root [] _ _ hStart).2.toSameKnowledge

/-- **A node and its counterpart have the same type.** -/
theorem typeOf_bind_map (hi : e.kept i = true) :
    (B.bind d).typeOf (e.map i) = (A.bind c).typeOf i :=
  (sameKnowledge_bind hConfig hA hB).typeOf i hi

/-- The symbols of a node and of its counterpart name corresponding declarations. -/
theorem symbolOf_bind_map (hi : e.kept i = true) :
    Option.Rel (SameSymbol e) ((A.bind c).symbolOf i) ((B.bind d).symbolOf (e.map i)) :=
  (sameKnowledge_bind hConfig hA hB).symbolOf i hi

/-- **Two nodes stand for one declaration** exactly if their counterparts do. -/
theorem sameSymbol_bind_map (hi : e.kept i = true) (hj : e.kept j = true) :
    (B.bind d).sameSymbol (e.map i) (e.map j) = (A.bind c).sameSymbol i j := by
  have hFirst := symbolOf_bind_map (e := e) hConfig hA hB hi
  have hSecond := symbolOf_bind_map (e := e) hConfig hA hB hj
  unfold Oracle.sameSymbol
  generalize (A.bind c).symbolOf i = s at hFirst
  generalize (B.bind d).symbolOf (e.map i) = t at hFirst
  generalize (A.bind c).symbolOf j = s' at hSecond
  generalize (B.bind d).symbolOf (e.map j) = t' at hSecond
  cases hFirst with
  | none => rfl
  | some hSame =>
      cases hSecond with
      | none => rfl
      | some hSame' =>
          rw [Bool.eq_iff_iff, beq_iff_eq, beq_iff_eq]
          exact hSame.eq_iff hSame'

end Oracles

end Binder

/-- An oracle is what it says about the nodes. -/
theorem Oracle.eq_of_nodes {n : Nat} {oracle other : Oracle n}
    (hTypes : ∀ i, oracle.typeOf i = other.typeOf i)
    (hSymbols : ∀ i, oracle.symbolOf i = other.symbolOf i) : oracle = other := by
  obtain ⟨types, symbols⟩ := oracle
  obtain ⟨types', symbols'⟩ := other
  rw [Oracle.mk.injEq]
  constructor
  · ext1 i hi
    exact hTypes ⟨i, hi⟩
  · ext1 i hi
    exact hSymbols ⟨i, hi⟩

/-- **The oracle of a program depends neither on places nor on what protects a read:** trees that
differ in their file and spans only have one oracle, by all configurations that give types the same
meaning. -/
theorem Tree.bind_eq {tree : Tree} (hProgram : tree.IsProgram) {c d : Config}
    (hConfig : c.TypesLike d) (file : String) (span : tree.Id → Span) :
    Tree.bind { tree with file, span } d = tree.bind c := by
  let e : Arena.Embedding tree.toArena { tree with file, span }.toArena := .refl tree.toArena
  apply Oracle.eq_of_nodes
  · intro i
    exact Binder.typeOf_bind_map (e := e) hConfig hProgram hProgram rfl
  · intro i
    have hSymbols := Binder.symbolOf_bind_map (e := e) hConfig hProgram hProgram (i := i) rfl
    show (Tree.bind { tree with file, span } d).symbolOf (e.map i) = (tree.bind c).symbolOf i
    generalize (Tree.bind { tree with file, span } d).symbolOf (e.map i) = symbol at hSymbols ⊢
    generalize (tree.bind c).symbolOf i = symbol' at hSymbols ⊢
    cases hSymbols with
    | none => rfl
    | some hSame =>
        obtain ⟨name, declaration, -, rfl, rfl⟩ := hSame
        rfl

end StateGuard
