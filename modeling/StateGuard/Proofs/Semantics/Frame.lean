import StateGuard.Proofs.Semantics.Binding

/-!
# What the binder leaves alone

Binding a statement or an expression changes little: it declares names in the innermost scope and
records types and symbols of the nodes it goes through.  The scopes around, the fields of the unit
and all that is known about other nodes stay as they were.  `Stays` says so for an action of the
binder.

## Main results

* `Stays.bind`, `Stays.inScope`: the rules for one action after another and for a scope.
* `stays_visit`: visiting a node changes nothing but what is known about the nodes within it.
-/

namespace StateGuard.Binder

open Arena

section Rules

variable {n : Nat} {α β : Type} {nodes others : Fin n → Prop}

/-- Nothing has changed but the innermost scope and what is known about some nodes. -/
structure Leaves (nodes : Fin n → Prop) (s s' : State n) : Prop where
  outer : s'.scopes.outer = s.scopes.outer
  fields : s'.fields = s.fields
  typeOf : ∀ j, ¬ nodes j → s'.oracle.typeOf j = s.oracle.typeOf j
  symbolOf : ∀ j, ¬ nodes j → s'.oracle.symbolOf j = s.oracle.symbolOf j

theorem Leaves.refl (nodes : Fin n → Prop) (s : State n) : Leaves nodes s s :=
  ⟨rfl, rfl, fun _ _ => rfl, fun _ _ => rfl⟩

/-- An action changes nothing but the innermost scope and what is known about some nodes. -/
def Stays (nodes : Fin n → Prop) (action : Bind n α) : Prop := ∀ s, Leaves nodes s (action.run s).2

theorem Stays.pure (value : α) : Stays nodes (pure value) := Leaves.refl nodes

theorem Stays.get : Stays nodes get := Leaves.refl nodes

theorem Stays.lookup (name : String) : Stays nodes (lookup name) := Leaves.refl nodes

theorem Stays.map {action : Bind n α} (f : α → β) (h : Stays nodes action) :
    Stays nodes (f <$> action) := h

theorem Stays.bind {first : Bind n α} {next : α → Bind n β} (hFirst : Stays nodes first)
    (hNext : ∀ value, Stays nodes (next value)) : Stays nodes (first >>= next) := by
  intro s
  have h := hFirst s
  have h' := hNext (first.run s).1 (first.run s).2
  exact ⟨h'.outer.trans h.outer, h'.fields.trans h.fields,
    fun j hj => (h'.typeOf j hj).trans (h.typeOf j hj),
    fun j hj => (h'.symbolOf j hj).trans (h.symbolOf j hj)⟩

theorem Stays.widen {action : Bind n α} (h : Stays nodes action)
    (hSub : ∀ j, nodes j → others j) : Stays others action := by
  intro s
  exact ⟨(h s).outer, (h s).fields, fun j hj => (h s).typeOf j fun hn => hj (hSub j hn),
    fun j hj => (h s).symbolOf j fun hn => hj (hSub j hn)⟩

theorem Stays.forM {ι : Type} {action : ι → Bind n PUnit} {xs : List ι}
    (h : ∀ x ∈ xs, Stays nodes (action x)) : Stays nodes (xs.forM action) := by
  induction xs with
  | nil => exact Stays.pure _
  | cons x xs ih =>
      exact (h x List.mem_cons_self).bind fun _ => ih fun y hy => h y (List.mem_cons_of_mem x hy)

theorem Stays.mapM {ι : Type} {action : ι → Bind n α} {xs : List ι}
    (h : ∀ x ∈ xs, Stays nodes (action x)) : Stays nodes (xs.mapM action) := by
  induction xs with
  | nil =>
      rw [List.mapM_nil]
      exact Stays.pure _
  | cons x xs ih =>
      rw [List.mapM_cons]
      exact (h x List.mem_cons_self).bind fun _ =>
        (ih fun y hy => h y (List.mem_cons_of_mem x hy)).bind fun _ => Stays.pure _

theorem Stays.record {i : Fin n} (hi : nodes i) (type : Option TypeRef) :
    Stays nodes (record i type) := by
  intro s
  cases type with
  | none => exact Leaves.refl nodes s
  | some type =>
      refine ⟨rfl, rfl, ?_, fun _ _ => rfl⟩
      intro j hj
      have hNe : i ≠ j := fun hEq => hj (hEq ▸ hi)
      exact (Oracle.typeOf_setType ..).trans (if_neg hNe)

theorem Stays.mark {i : Fin n} (hi : nodes i) (symbol : String) :
    Stays nodes (mark i symbol) := by
  intro s
  refine ⟨rfl, rfl, fun _ _ => rfl, ?_⟩
  intro j hj
  have hNe : i ≠ j := fun hEq => hj (hEq ▸ hi)
  exact (Oracle.symbolOf_setSymbol ..).trans (if_neg hNe)

theorem Stays.declare {i : Fin n} (hi : nodes i) (name : String) (type : Option TypeRef) :
    Stays nodes (declare i name type) := by
  refine (Stays.mark hi _).bind fun _ => (Stays.record hi type).bind fun _ => ?_
  intro s
  exact ⟨rfl, rfl, fun _ _ => rfl, fun _ _ => rfl⟩

/-- What happens in a scope of its own leaves all scopes as they were. -/
theorem Stays.scopes_inScope {action : Bind n α} (h : Stays nodes action) (s : State n) :
    ((inScope action).run s).2.scopes = s.scopes := by
  have hOuter : (action.run { s with scopes := s.scopes.push }).2.scopes.outer =
      s.scopes.innermost :: s.scopes.outer := (h _).outer
  show (action.run { s with scopes := s.scopes.push }).2.scopes.pop.2 = s.scopes
  unfold Scopes.pop
  rw [hOuter]

theorem Stays.inScope {action : Bind n α} (h : Stays nodes action) :
    Stays nodes (inScope action) := by
  intro s
  have h' := h { s with scopes := s.scopes.push }
  exact ⟨congrArg Scopes.outer (h.scopes_inScope s), h'.fields, h'.typeOf, h'.symbolOf⟩

end Rules

variable {tree : Tree} {config : Config} {imports : Imports} {i : tree.Id}

theorem Stays.declareParameter {nodes : tree.Id → Prop} {param : tree.Id} (hParam : nodes param)
    (inferred : Option TypeRef) : Stays nodes (declareParameter tree param inferred) := by
  unfold Binder.declareParameter
  split
  · exact (Stays.declare hParam _ _).map _
  · exact Stays.pure _

theorem Stays.declareParameters {nodes : tree.Id → Prop} {params : List tree.Id}
    (hParams : ∀ p ∈ params, nodes p) (element : Option TypeRef) :
    Stays nodes (declareParameters tree params element) := by
  cases params with
  | nil => exact Stays.pure _
  | cons first rest =>
      refine (Stays.declareParameter (hParams first List.mem_cons_self) element).bind fun _ => ?_
      exact Stays.forM fun p hp =>
        Stays.declareParameter (hParams p (List.mem_cons_of_mem first hp)) none

theorem Stays.wrapperName {nodes : tree.Id → Prop} (receiver : tree.Id) :
    Stays nodes (wrapperName? tree config imports receiver) := by
  unfold wrapperName?
  split
  · refine (Stays.lookup _).bind fun found => ?_
    cases found with
    | none => exact Stays.pure _
    | some binding => exact Stays.pure _
  · exact Stays.pure _

/-- Visiting a node changes nothing but what is known about the nodes within it. -/
def VisitStays (config : Config) (imports : Imports) (i c : tree.Id) : Prop :=
  ∀ receivers, Stays (fun j => tree.isWithin j i = true) (visit tree config imports receivers c)

section Calls

variable {callee : tree.Id} {args : List (Argument tree.Id)}
  (hNode : tree.node i = .invocation callee args)
  (hBelow : ∀ c, tree.height c < tree.height i → tree.isWithin c i = true →
    VisitStays config imports i c)
include hNode hBelow

theorem stays_bindArguments (receivers : List (Option TypeRef)) (method : String)
    (element : Option TypeRef) : Stays (fun j => tree.isWithin j i = true)
      (bindArguments tree config imports receivers i method element) := by
  rw [bindArguments_eq hNode]
  apply Stays.mapM
  intro x _
  have hArg : x.1.1.value ∈ (tree.node i).children := by
    rw [hNode]
    exact List.mem_cons_of_mem _ (List.mem_map_of_mem x.1.2)
  have hWithin := isWithin_of_mem_children hArg
  have hHeight := height_lt_of_mem_children hArg
  unfold bindArgument
  split
  · next params body isAsync hLambda =>
      have hPart : ∀ c ∈ params ++ [body], tree.isWithin c i = true := fun c hc =>
        isWithin_trans (isWithin_of_mem_children (by rw [hLambda]; exact hc)) hWithin
      have hBody : tree.height body < tree.height x.1.1.value :=
        height_lt_of_mem_children (by simp [hLambda, Node.children])
      apply Stays.inScope
      refine (Stays.declareParameters (fun p hp => hPart p (by simp [hp])) _).bind fun _ => ?_
      exact hBelow body (Nat.lt_trans hBody hHeight) (hPart body (by simp)) receivers
  · exact hBelow _ hHeight hWithin receivers

theorem stays_inferCall (receivers : List (Option TypeRef)) :
    Stays (fun j => tree.isWithin j i = true) (inferCall tree config imports receivers i) := by
  have hArguments := stays_bindArguments hNode hBelow receivers
  have hCallee : callee ∈ (tree.node i).children := by simp [hNode, Node.children]
  have hStrip : tree.isWithin (tree.stripParens callee) i = true :=
    isWithin_trans (isWithin_stripParens callee) (isWithin_of_mem_children hCallee)
  have hHeight : ∀ c, tree.height c ≤ tree.height callee → tree.height c < tree.height i :=
    fun c hc => Nat.lt_of_le_of_lt hc (height_lt_of_mem_children hCallee)
  rw [inferCall, hNode]
  simp only
  split
  · next receiver method hMember =>
      have hReceiver : receiver ∈ (tree.node (tree.stripParens callee)).children := by
        simp [hMember, Node.children]
      have hVisit := hBelow receiver
        (hHeight _ (Nat.le_of_lt (height_lt_of_mem_children_stripParens hReceiver)))
        (isWithin_trans (isWithin_of_mem_children hReceiver) hStrip)
      refine (Stays.wrapperName receiver).bind fun found => ?_
      cases found with
      | some fullName => exact (hArguments method none).bind fun _ => Stays.pure _
      | none =>
          exact (hVisit receivers).bind fun _ => (hArguments method _).bind fun _ => Stays.pure _
  · next name hName =>
      refine (Stays.lookup name).bind fun found => ?_
      have hRest := ((hArguments name none).map fun _ => ()).bind fun _ =>
        Stays.pure (found.bind (·.type))
      cases found with
      | none => exact (Stays.pure ()).bind fun _ => hRest
      | some binding => exact (Stays.mark hStrip _).bind fun _ => hRest
  · have hVisit := hBelow _ (hHeight _ (height_stripParens_le callee)) hStrip
    exact ((hVisit receivers).map _).bind fun _ =>
      ((hArguments "" none).map _).bind fun _ => Stays.pure _

end Calls

theorem stays_infer (hUnit : (tree.node i).kind ≠ .compilationUnit)
    (hBelow : ∀ c, tree.height c < tree.height i → tree.isWithin c i = true →
      VisitStays config imports i c)
    (receivers : List (Option TypeRef)) :
    Stays (fun j => tree.isWithin j i = true) (infer tree config imports receivers i) := by
  have hPart : ∀ c ∈ (tree.node i).children, VisitStays config imports i c := fun c hc =>
    hBelow c (height_lt_of_mem_children hc) (isWithin_of_mem_children hc)
  have hIn : ∀ c ∈ (tree.node i).children, tree.isWithin c i = true := fun c hc =>
    isWithin_of_mem_children hc
  have hSelf : tree.isWithin i i = true := isWithin_self i
  cases hNode : tree.node i with
  | invocation callee args =>
      rw [infer, hNode]
      exact stays_inferCall hNode hBelow receivers
  | compilationUnit members => simp [hNode, Node.kind] at hUnit
  | method name returnType params body isAsync =>
      rw [hNode] at hPart hIn
      rw [infer, hNode]
      refine Stays.bind (Stays.inScope ?_) fun _ => Stays.pure _
      refine Stays.bind ?_ fun _ => (hPart body (by simp [Node.children]) receivers).map _
      exact Stays.forM fun p hp => Stays.declareParameter (hIn p (by simp [Node.children, hp])) none
  | lambda params body isAsync =>
      rw [hNode] at hPart hIn
      rw [infer, hNode]
      refine Stays.bind (Stays.inScope ?_) fun _ => Stays.pure _
      refine Stays.bind ?_ fun _ => (hPart body (by simp [Node.children]) receivers).map _
      exact Stays.declareParameters (fun p hp => hIn p (by simp [Node.children, hp])) none
  | block statements =>
      rw [hNode] at hPart
      rw [infer, hNode]
      refine Stays.bind (Stays.inScope ?_) fun _ => Stays.pure _
      exact Stays.forM fun c _ => (hPart c.1 c.2 receivers).map _
  | localDeclaration name type init =>
      cases init with
      | none =>
          rw [infer, hNode]
          exact ((Stays.declare hSelf name type).map _).bind fun _ => Stays.pure _
      | some init =>
          rw [hNode] at hPart
          rw [infer, hNode]
          exact (hPart init (by simp [Node.children]) receivers).bind fun _ =>
            ((Stays.declare hSelf name _).map _).bind fun _ => Stays.pure _
  | outVariable name type =>
      rw [infer, hNode]
      exact Stays.get.bind fun _ => ((Stays.declare hSelf name _).map _).bind fun _ => Stays.pure _
  | identifier name =>
      rw [infer, hNode]
      refine (Stays.lookup name).bind fun found => ?_
      cases found with
      | none => exact Stays.pure _
      | some binding => exact (Stays.mark hSelf _).bind fun _ => Stays.pure _
  | memberAccess receiver member =>
      rw [hNode] at hPart
      rw [infer, hNode]
      refine (hPart receiver (by simp [Node.children]) receivers).bind fun _ => ?_
      split
      · refine Stays.get.bind fun s => ?_
        split
        · exact Stays.pure _
        · exact (Stays.mark hSelf _).bind fun _ => Stays.pure _
      · exact Stays.pure _
  | conditionalAccess receiver rest =>
      rw [hNode] at hPart
      rw [infer, hNode]
      exact (hPart receiver (by simp [Node.children]) receivers).bind fun type =>
        hPart rest (by simp [Node.children]) _
  | ifStatement condition thenBranch elseBranch =>
      rw [hNode] at hPart
      have hCondition := hPart condition (by simp [Node.children]) receivers
      have hThen := hPart thenBranch (by simp [Node.children]) receivers
      cases elseBranch with
      | none =>
          rw [infer, hNode]
          exact (hCondition.map _).bind fun _ => (hThen.map _).bind fun _ => Stays.pure _
      | some elseBranch =>
          have hElse := hPart elseBranch (by simp [Node.children]) receivers
          rw [infer, hNode]
          exact (hCondition.map _).bind fun _ => (hThen.map _).bind fun _ =>
            (hElse.map _).bind fun _ => Stays.pure _
  | returnStatement value =>
      cases value with
      | none =>
          rw [infer, hNode]
          exact Stays.pure _
      | some value =>
          rw [hNode] at hPart
          rw [infer, hNode]
          exact ((hPart value (by simp [Node.children]) receivers).map _).bind fun _ => Stays.pure _
  | expressionStatement expr =>
      rw [hNode] at hPart
      rw [infer, hNode]
      exact ((hPart expr (by simp [Node.children]) receivers).map _).bind fun _ => Stays.pure _
  | unary op operand =>
      rw [hNode] at hPart
      rw [infer, hNode]
      refine (hPart operand (by simp [Node.children]) receivers).bind fun type => ?_
      cases op with
      | not => exact Stays.pure _
      | negate => exact Stays.pure _
  | binary op left right =>
      rw [hNode] at hPart
      rw [infer, hNode]
      exact (hPart left (by simp [Node.children]) receivers).bind fun _ =>
        ((hPart right (by simp [Node.children]) receivers).map _).bind fun _ => Stays.pure _
  | isPattern operand pattern =>
      rw [hNode] at hPart
      rw [infer, hNode]
      exact ((hPart operand (by simp [Node.children]) receivers).map _).bind fun _ => Stays.pure _
  | conditional condition whenTrue whenFalse =>
      rw [hNode] at hPart
      rw [infer, hNode]
      exact ((hPart condition (by simp [Node.children]) receivers).map _).bind fun _ =>
        (hPart whenTrue (by simp [Node.children]) receivers).bind fun _ =>
          (hPart whenFalse (by simp [Node.children]) receivers).bind fun _ => Stays.pure _
  | await operand =>
      rw [hNode] at hPart
      rw [infer, hNode]
      refine (hPart operand (by simp [Node.children]) receivers).bind fun type => ?_
      cases type with
      | none => exact Stays.pure _
      | some type => exact Stays.pure _
  | parenthesized inner =>
      rw [hNode] at hPart
      rw [infer, hNode]
      exact hPart inner (by simp [Node.children]) receivers
  | parameter name type =>
      rw [infer, hNode]
      exact Stays.pure _
  | this =>
      rw [infer, hNode]
      exact Stays.pure _
  | literal value =>
      rw [infer, hNode]
      exact Stays.pure _
  | memberBinding member =>
      rw [infer, hNode]
      exact Stays.pure _

/-- **Visiting a node stays within it,** unless there are units in it. -/
theorem stays_visit (config : Config) (imports : Imports)
    (hUnits : ∀ j, tree.isWithin j i = true → (tree.node j).kind ≠ .compilationUnit) :
    VisitStays config imports i i := by
  induction hHeight : tree.height i using Nat.strongRecOn generalizing i with
  | ind height ih =>
      intro receivers
      rw [visit]
      refine (stays_infer (hUnits i (isWithin_self i)) ?_ receivers).bind fun type =>
        (Stays.record (isWithin_self i) type).bind fun _ => Stays.pure _
      intro c hLt hWithin receivers'
      have hBelow := ih _ (hHeight ▸ hLt)
        (fun j hj => hUnits j (isWithin_trans hj hWithin)) rfl receivers'
      exact hBelow.widen fun j hj => isWithin_trans hj hWithin

end StateGuard.Binder
