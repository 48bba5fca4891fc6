import StateGuard.Proofs.Semantics.Advances

/-!
# Binding follows the scopes

Visiting a node declares what the node exposes to the scope around it and gives the names below it
the meanings that they have at their places.  This is proved for one construct after another, from
what visiting the parts does; calls bind their lambdas on their own and leave out the names of
wrapper types, which mean nothing.

## Main results

* `advances_inferCall`, `advances_infer`: what binding one construct does.
* `advances_visit`: visiting a node declares what the node exposes.
* `symbolOf_bindWith`: a name gets the meaning it has at its place.
-/

namespace StateGuard.Binder

open Arena

variable {tree : Tree}

/-! ## Visiting -/

section Visit

variable {config : Config} {imports : Imports} {i : tree.Id}

/-- Visiting a node declares what the node exposes and binds the names in it. -/
def VisitAdvances (config : Config) (imports : Imports) (c : tree.Id) : Prop :=
  ∀ receivers, Advances (fun j => tree.isWithin j c = true) (before c)
    (before c ++ reachedEvents [c]) (visit tree config imports receivers c)

/-- A lambda, whatever the types of its parameters. -/
theorem advances_lambda {params : List tree.Id} {body : tree.Id} {isAsync : Bool}
    (hProgram : tree.IsProgram) (hNode : tree.node i = .lambda params body isAsync)
    (hBody : VisitAdvances config imports body) (receivers : List (Option TypeRef))
    (element : Option TypeRef) :
    Advances (fun j => tree.isWithin j i = true) (before i) (before i ++ reachedEvents [i])
      (inScope (declareParameters tree params element >>= fun _ =>
        visit tree config imports receivers body)) := by
  have hSorted := hProgram.sorted i
  have hNodup := tree.children_nodup i
  rw [hNode] at hSorted hNodup
  refine Advances.scope (by rw [hNode]; rfl) (by rw [hNode]; rfl) hSorted.1 ?_ (hBody receivers)
  have hEvents : enteredEvents i = params.map (⟨false, ·⟩) := by
    rw [enteredEvents, hNode]
    rfl
  rw [hEvents]
  exact Advances.declareParameters element hSorted.1 (List.nodup_append.1 hNodup).1

/-- Bind one argument of a call. -/
def bindArgument (config : Config) (imports : Imports) (receivers : List (Option TypeRef))
    (method : String) (element : Option TypeRef) (arg : Argument tree.Id) (position : Nat) :
    Bind tree.size (Option TypeRef) :=
  match tree.node arg.value with
  | .lambda params body _ => inScope do
    declareParameters tree params
      (if receivesElement config method arg.name position then element else none)
    visit tree config imports receivers body
  | _ => visit tree config imports receivers arg.value

theorem bindArguments_eq {callee : tree.Id} {args : List (Argument tree.Id)}
    (hNode : tree.node i = .invocation callee args) (receivers : List (Option TypeRef))
    (method : String) (element : Option TypeRef) :
    bindArguments tree config imports receivers i method element =
      args.attach.zipIdx.mapM fun x =>
        bindArgument config imports receivers method element x.1.1 x.2 := by
  rw [bindArguments, hNode]
  refine congrArg (fun f => List.mapM f args.attach.zipIdx) (funext fun x => ?_)
  obtain ⟨⟨arg, hArg⟩, position⟩ := x
  dsimp only [bindArgument]
  split
  · next hLambda => rw [hLambda]
  · next hOther =>
      split
      · next hLambda => exact absurd hLambda (hOther _ _ _)
      · rfl

theorem advances_bindArgument (hProgram : tree.IsProgram) {arg : Argument tree.Id}
    (hValue : VisitAdvances config imports arg.value)
    (hBody : ∀ params body isAsync, tree.node arg.value = .lambda params body isAsync →
      VisitAdvances config imports body)
    (receivers : List (Option TypeRef)) (method : String) (element : Option TypeRef)
    (position : Nat) :
    Advances (fun j => tree.isWithin j arg.value = true) (before arg.value)
      (before arg.value ++ reachedEvents [arg.value])
      (bindArgument config imports receivers method element arg position) := by
  unfold bindArgument
  split
  · next params body isAsync hNode =>
      exact advances_lambda hProgram hNode (hBody params body isAsync hNode) receivers _
  · exact hValue receivers

/-- The values of the arguments of a call, with their positions. -/
theorem map_value_zipIdx (args : List (Argument tree.Id)) :
    (args.attach.zipIdx.map fun y => y.1.1.value) = args.map (·.value) := by
  calc args.attach.zipIdx.map (fun y => y.1.1.value)
      = (args.attach.zipIdx.map Prod.fst).map fun a => a.1.value := by rw [List.map_map]; rfl
    _ = args.attach.map fun a => a.1.value := by rw [List.zipIdx_map_fst]
    _ = args.map (·.value) := by simp

/-- Nothing is within two arguments of a call. -/
theorem pairwise_apart_arguments {callee : tree.Id} {args : List (Argument tree.Id)}
    (hNode : tree.node i = .invocation callee args) :
    args.attach.zipIdx.Pairwise fun x y => ∀ j,
      tree.isWithin j x.1.1.value = true → ¬ tree.isWithin j y.1.1.value = true := by
  have hParts := pairwise_apart i
  rw [show (tree.node i).children = callee :: args.map (·.value) by rw [hNode]; rfl,
    ← map_value_zipIdx, List.pairwise_cons, List.pairwise_map] at hParts
  exact hParts.2

/-- The arguments of a call are bound one after the other. -/
theorem advances_bindArguments (hProgram : tree.IsProgram) {callee : tree.Id}
    {args : List (Argument tree.Id)} (hNode : tree.node i = .invocation callee args)
    (ih : ∀ c, tree.height c < tree.height i → c ≠ tree.root → VisitAdvances config imports c)
    (receivers : List (Option TypeRef)) (method : String) (element : Option TypeRef) :
    Advances (WithinAny (args.map (·.value))) (progress i [callee])
      (progress i (tree.node i).children)
      (bindArguments tree config imports receivers i method element) := by
  have hChildren : (tree.node i).children = callee :: args.map (·.value) := by rw [hNode]; rfl
  have hValues := map_value_zipIdx args
  have hEach : ∀ (earlier : List ({ a // a ∈ args } × Nat)) x later,
      args.attach.zipIdx = earlier ++ x :: later →
      Advances (fun j => tree.isWithin j x.1.1.value = true)
        (progress i (callee :: earlier.map fun y => y.1.1.value))
        (progress i (callee :: (earlier ++ [x]).map fun y => y.1.1.value))
        (bindArgument config imports receivers method element x.1.1 x.2) := by
    intro earlier x later hSplit
    have hArg : x.1.1.value ∈ (tree.node i).children := by
      rw [hChildren]
      exact List.mem_cons_of_mem _ (List.mem_map_of_mem x.1.2)
    have hAll : (tree.node i).children = (callee :: earlier.map fun y => y.1.1.value) ++
        x.1.1.value :: later.map fun y => y.1.1.value := by
      rw [hChildren, ← hValues, hSplit]
      simp
    have hLt := height_lt_of_mem_children hArg
    have h := advances_bindArgument hProgram (ih _ hLt (ne_root_of_mem_children hArg))
      (fun params body isAsync hLambda => by
        have hBody : body ∈ (tree.node x.1.1.value).children := by simp [hLambda, Node.children]
        exact ih body (Nat.lt_trans (height_lt_of_mem_children hBody) hLt)
          (ne_root_of_mem_children hBody))
      receivers method element x.2
    rw [before_of_children hAll, ← progress_append] at h
    simpa using h
  have h := Advances.mapM (fun done : List ({ a // a ∈ args } × Nat) =>
    progress i (callee :: done.map fun y => y.1.1.value)) hEach (pairwise_apart_arguments hNode)
  rw [bindArguments_eq hNode, hChildren, ← hValues]
  refine h.congr fun j => ?_
  simp [WithinAny]

/-- Go on with the wrapper type that an expression names: such an expression is a name without a
meaning. -/
theorem Advances.wrapperName {α : Type} {nodes : tree.Id → Prop}
    {start stop : List (Event tree.toArena)} {receiver : tree.Id}
    {next : Option String → Bind tree.size α} (hNone : Advances nodes start stop (next none))
    (hSome : ∀ fullName name, tree.node (tree.stripParens receiver) = .identifier name →
      meaning start name = none → Advances nodes start stop (next (some fullName))) :
    Advances nodes start stop (wrapperName? tree config imports receiver >>= next) := by
  unfold wrapperName?
  split
  · next name hName =>
      rw [bind_assoc]
      refine Advances.lookup fun found hFound => ?_
      cases found with
      | some binding => exact hNone
      | none =>
          show Advances nodes start stop (next ((imports.lookup name).filter _))
          cases (imports.lookup name).filter _ with
          | none => exact hNone
          | some fullName => exact hSome fullName name hName hFound.symm
  · exact hNone

/-- A name has no parts, and declares nothing by being over. -/
theorem identifier_alone {m : tree.Id} {name : String} (hNode : tree.node m = .identifier name) :
    tree.exposed m = [] ∧ ∀ j, tree.isWithin j m = true ↔ j = m := by
  refine ⟨by simp [exposed_eq, hNode, Node.opensScope, Node.isLocal, Node.children], ?_⟩
  intro j
  rw [isWithin_iff_part]
  simp [hNode, Node.children]

/-- A name gets its meaning, if it has one. -/
theorem advances_name {m : tree.Id} {name : String} (hNode : tree.node m = .identifier name)
    {found : Option Binding} (hFound : found.map (·.symbol) = meaning (before m) name) :
    Advances (fun j => tree.isWithin j m = true) (before m) (before m)
      (match found with
      | some binding => Binder.mark m binding.symbol
      | none => Pure.pure ()) := by
  have hAlone := (identifier_alone hNode).2
  cases found with
  | some binding => exact (Advances.markName hNode hFound.symm).congr fun j => (hAlone j).symm
  | none =>
      refine (Advances.pure ()).widen (fun j h => h.elim) ?_
      intro j other hj _ hOther
      obtain rfl := (hAlone j).1 hj
      obtain rfl : name = other := by simpa [hNode] using hOther
      exact hFound.symm

theorem advances_name_reached {m : tree.Id} {name : String}
    (hNode : tree.node m = .identifier name) {found : Option Binding}
    (hFound : found.map (·.symbol) = meaning (before m) name) :
    Advances (fun j => tree.isWithin j m = true) (before m) (before m ++ reachedEvents [m])
      (match found with
      | some binding => Binder.mark m binding.symbol
      | none => Pure.pure ()) := by
  have hEvents : (reachedEvents [m] : List (Event tree.toArena)) = [] := by
    simp [reachedEvents, (identifier_alone hNode).1]
  rw [hEvents, List.append_nil]
  exact advances_name hNode hFound

/-- What binds the receiver of a member access binds the access. -/
theorem Advances.receiver {α : Type} {m receiver : tree.Id} {member : String}
    {action : Bind tree.size α} (hNode : tree.node m = .memberAccess receiver member)
    (h : Advances (fun j => tree.isWithin j receiver = true) (before receiver)
      (before receiver ++ reachedEvents [receiver]) action) :
    Advances (fun j => tree.isWithin j m = true) (before m) (before m ++ reachedEvents [m])
      action := by
  have hChildren : (tree.node m).children = [receiver] := by rw [hNode]; rfl
  exact Advances.plain (by rw [hNode]; rfl) hChildren (Advances.lastPart hChildren h)

/-- What binds an expression without its parentheses binds it with them. -/
theorem Advances.stripped {α : Type} {c : tree.Id} {action : Bind tree.size α}
    (h : Advances (fun j => tree.isWithin j (tree.stripParens c) = true)
      (before (tree.stripParens c))
      (before (tree.stripParens c) ++ reachedEvents [tree.stripParens c]) action) :
    Advances (fun j => tree.isWithin j c = true) (before c) (before c ++ reachedEvents [c])
      action := by
  have hEvents : (reachedEvents [tree.stripParens c] : List (Event tree.toArena)) =
      reachedEvents [c] := by
    simp [reachedEvents, exposed_stripParens]
  rw [before_stripParens, hEvents] at h
  exact h.parens

/-- **A call:** its callee is bound before its arguments, and the name of a wrapper type has no
meaning. -/
theorem advances_inferCall (hProgram : tree.IsProgram) {callee : tree.Id}
    {args : List (Argument tree.Id)} (hNode : tree.node i = .invocation callee args)
    (ih : ∀ c, tree.height c < tree.height i → c ≠ tree.root → VisitAdvances config imports c)
    (receivers : List (Option TypeRef)) :
    Advances (WithinAny (tree.node i).children) (progress i []) (progress i (tree.node i).children)
      (inferCall tree config imports receivers i) := by
  have hChildren : (tree.node i).children = callee :: args.map (·.value) := by
    rw [hNode]
    rfl
  have hSplit : (tree.node i).children = [] ++ callee :: args.map (·.value) := hChildren
  have hStart : before callee = progress i [] := before_of_children hSplit
  have hArguments := advances_bindArguments hProgram hNode ih receivers
  have hCallee : callee ∈ (tree.node i).children := by simp [hChildren]
  have hBelow : ∀ c, tree.height c ≤ tree.height callee → tree.height c < tree.height i :=
    fun c hc => Nat.lt_of_le_of_lt hc (height_lt_of_mem_children hCallee)
  rw [hChildren] at hArguments ⊢
  rw [inferCall, hNode]
  simp only
  split
  · next receiver method hMember =>
      have hReceiver : receiver ∈ (tree.node (tree.stripParens callee)).children := by
        simp [hMember, Node.children]
      have hVisit := ih receiver
        (hBelow _ (Nat.le_of_lt (height_lt_of_mem_children_stripParens hReceiver)))
        (ne_root_of_mem_children hReceiver)
      refine Advances.wrapperName ?_ ?_
      · exact Advances.part hSplit (Advances.receiver hMember (hVisit receivers)).stripped
          fun type => (hArguments method _).andThen fun types => Advances.pure _
      · intro fullName name hName hMeaning
        have hOnly : (tree.node (tree.stripParens callee)).children = [] ++ receiver :: [] := by
          rw [hMember]
          rfl
        have hNone : (none : Option Binding).map (·.symbol) =
            meaning (before (tree.stripParens receiver)) name := by
          rw [before_stripParens, before_of_children hOnly, progress_nil (by rw [hMember]; rfl),
            before_stripParens, hStart, hMeaning]
          rfl
        have hFirst := Advances.receiver hMember (advances_name_reached hName hNone).stripped
        have hAll := Advances.part hSplit hFirst.stripped fun _ : Unit =>
          (hArguments method none).andThen fun types => Advances.pure
            (some (TypeRef.generic fullName [types.head?.join.getD (.named "object")]))
        exact hAll
  · next name hName =>
      refine Advances.lookup fun found hFound => ?_
      rw [← hStart, ← before_stripParens] at hFound
      have hFirst := (advances_name_reached hName hFound).stripped
      have hRest : ∀ _ : Unit, Advances (WithinAny (args.map (·.value))) (progress i ([] ++ [callee]))
          (progress i (callee :: args.map (·.value)))
          (discard (bindArguments tree config imports receivers i name none) >>= fun _ =>
            Pure.pure (found.bind (·.type))) :=
        fun _ => ((hArguments name none).map _).andThen fun _ => Advances.pure _
      have hAll := Advances.part hSplit hFirst hRest
      cases found with
      | none => exact hAll
      | some binding => exact hAll
  · have hVisit : VisitAdvances config imports (tree.stripParens callee) := by
      refine ih _ (hBelow _ (height_stripParens_le callee)) ?_
      intro hRoot
      have hWithin := isWithin_stripParens callee
      rw [hRoot, isWithin_iff] at hWithin
      rcases hWithin with hEq | ⟨p, hParent, -⟩
      · exact ne_root_of_mem_children hCallee hEq.symm
      · simp [tree.parent_root] at hParent
    exact Advances.part hSplit ((hVisit receivers).stripped.map _) fun _ =>
      ((hArguments "" none).map _).andThen fun _ => Advances.pure _

/-- The elements of a list around one that is known to be in it. -/
theorem eq_append_of_attach {ι : Type} {xs : List ι} {earlier later : List { x // x ∈ xs }}
    {x : { x // x ∈ xs }} (h : xs.attach = earlier ++ x :: later) :
    xs = earlier.map (·.1) ++ x.1 :: later.map (·.1) := by
  simpa using congrArg (List.map Subtype.val) h

/-- The statements of a block, or the members of a unit, are bound one after the other. -/
theorem advances_forM_visit (hVisit : ∀ c ∈ (tree.node i).children, VisitAdvances config imports c)
    {parts : List tree.Id} (hChildren : (tree.node i).children = parts)
    (receivers : List (Option TypeRef)) :
    Advances (WithinAny parts) (progress i []) (progress i parts)
      (parts.attach.forM fun ⟨c, _⟩ => discard (visit tree config imports receivers c)) := by
  have hValues : parts.attach.map (·.1) = parts := by simp
  have hEach : ∀ (earlier : List { c // c ∈ parts }) x later, parts.attach = earlier ++ x :: later →
      Advances (fun j => tree.isWithin j x.1 = true) (progress i (earlier.map (·.1)))
        (progress i ((earlier ++ [x]).map (·.1)))
        (discard (visit tree config imports receivers x.1)) := by
    intro earlier x later hSplit
    have hAll : (tree.node i).children = earlier.map (·.1) ++ x.1 :: later.map (·.1) :=
      hChildren.trans (eq_append_of_attach hSplit)
    have h := hVisit x.1 (by rw [hChildren]; exact x.2) receivers
    rw [before_of_children hAll, ← progress_append] at h
    rw [List.map_append]
    exact h.map _
  have hApart : parts.attach.Pairwise fun x y => ∀ j,
      tree.isWithin j x.1 = true → ¬ tree.isWithin j y.1 = true := by
    have hParts := pairwise_apart i
    rw [hChildren, ← hValues, List.pairwise_map] at hParts
    exact hParts
  have h := Advances.forM (fun done : List { c // c ∈ parts } => progress i (done.map (·.1)))
    hEach hApart
  rw [hValues] at h
  exact h.congr fun j => by simp [WithinAny]

theorem advances_infer_method (hProgram : tree.IsProgram) {name : String}
    {returnType : Option TypeRef} {params : List tree.Id} {body : tree.Id}
    {isAsync : Bool} (hNode : tree.node i = .method name returnType params body isAsync)
    (hVisit : ∀ c ∈ (tree.node i).children, VisitAdvances config imports c)
    (receivers : List (Option TypeRef)) :
    Advances (fun j => tree.isWithin j i = true) (before i) (before i ++ reachedEvents [i])
      (infer tree config imports receivers i) := by
  have hSorted := hProgram.sorted i
  have hNodup := tree.children_nodup i
  rw [hNode] at hSorted hNodup
  have hEvents : enteredEvents i = params.map (⟨false, ·⟩) := by
    rw [enteredEvents, hNode]
    rfl
  have hDeclares : Advances (· ∈ params) (before i) (before i ++ enteredEvents i)
      (params.forM fun param => declareParameter tree param none) := by
    rw [hEvents]
    exact Advances.forM_declareParameter hSorted.1 (List.nodup_append.1 hNodup).1
  have hBody : body ∈ (tree.node i).children := by simp [hNode, Node.children]
  rw [infer, hNode]
  exact (Advances.scope (by rw [hNode]; rfl) (by rw [hNode]; rfl) hSorted.1 hDeclares
    ((hVisit body hBody receivers).map _)).andThen fun _ => Advances.pure _

theorem advances_infer_block {statements : List tree.Id} (hNode : tree.node i = .block statements)
    (hVisit : ∀ c ∈ (tree.node i).children, VisitAdvances config imports c)
    (receivers : List (Option TypeRef)) :
    Advances (fun j => tree.isWithin j i = true) (before i) (before i ++ reachedEvents [i])
      (infer tree config imports receivers i) := by
  have hChildren : (tree.node i).children = statements := by rw [hNode]; rfl
  rw [infer, hNode]
  rw [reachedEvents_of_opensScope (by rw [hNode]; rfl), List.append_nil]
  have hAll := advances_forM_visit hVisit hChildren receivers
  rw [progress_nil (by rw [hNode]; rfl)] at hAll
  exact Advances.node (by simp [hNode]) hChildren
    (hAll.inScope.andThen fun _ => Advances.pure _)

theorem advances_infer_localDeclaration {name : String} {type : Option TypeRef}
    {init : Option tree.Id}
    (hNode : tree.node i = .localDeclaration name type init)
    (hVisit : ∀ c ∈ (tree.node i).children, VisitAdvances config imports c)
    (receivers : List (Option TypeRef)) :
    Advances (fun j => tree.isWithin j i = true) (before i) (before i ++ reachedEvents [i])
      (infer tree config imports receivers i) := by
  cases init with
  | none =>
      have hChildren : (tree.node i).children = [] := by rw [hNode]; rfl
      rw [infer, hNode]
      exact Advances.local (fun _ => type) (by rw [hNode]; rfl) (by rw [hNode]; rfl) hChildren
        (Advances.last ())
  | some init =>
      have hChildren : (tree.node i).children = [init] := by rw [hNode]; rfl
      rw [infer, hNode]
      exact Advances.local (type <|> ·) (by rw [hNode]; rfl) (by rw [hNode]; rfl) hChildren
        (Advances.lastPart hChildren (hVisit init (by simp [hChildren]) receivers))

theorem advances_infer_ifStatement {condition thenBranch : tree.Id} {elseBranch : Option tree.Id}
    (hNode : tree.node i = .ifStatement condition thenBranch elseBranch)
    (hVisit : ∀ c ∈ (tree.node i).children, VisitAdvances config imports c)
    (receivers : List (Option TypeRef)) :
    Advances (fun j => tree.isWithin j i = true) (before i) (before i ++ reachedEvents [i])
      (infer tree config imports receivers i) := by
  cases elseBranch with
  | none =>
      have hChildren : (tree.node i).children = [condition, thenBranch] := by rw [hNode]; rfl
      rw [infer, hNode]
      refine Advances.plain (by rw [hNode]; rfl) hChildren ?_
      exact Advances.part hChildren ((hVisit condition (by simp [hChildren]) receivers).map _)
        fun _ => Advances.part hChildren
          ((hVisit thenBranch (by simp [hChildren]) receivers).map _) fun _ => Advances.last _
  | some elseBranch =>
      have hChildren : (tree.node i).children = [condition, thenBranch, elseBranch] := by
        rw [hNode]
        rfl
      rw [infer, hNode]
      refine Advances.plain (by rw [hNode]; rfl) hChildren ?_
      exact Advances.part hChildren ((hVisit condition (by simp [hChildren]) receivers).map _)
        fun _ => Advances.part hChildren
          ((hVisit thenBranch (by simp [hChildren]) receivers).map _) fun _ =>
            Advances.part hChildren
              ((hVisit elseBranch (by simp [hChildren]) receivers).map _) fun _ =>
                Advances.last _

theorem advances_infer_memberAccess {receiver : tree.Id} {member : String}
    (hNode : tree.node i = .memberAccess receiver member)
    (hVisit : ∀ c ∈ (tree.node i).children, VisitAdvances config imports c)
    (receivers : List (Option TypeRef)) :
    Advances (fun j => tree.isWithin j i = true) (before i) (before i ++ reachedEvents [i])
      (infer tree config imports receivers i) := by
  have hChildren : (tree.node i).children = [receiver] := by rw [hNode]; rfl
  have hName : ∀ name, tree.node i ≠ .identifier name := by simp [hNode]
  have hEvents : before i ++ reachedEvents [i] = progress i [receiver] := by
    rw [reachedEvents_of_plain (by rw [hNode]; rfl) (by rw [hNode]; rfl), hChildren, progress]
    simp [enteredEvents, hNode, Node.entered, Node.params]
  have hStart : before i = progress i [] := (progress_nil (by rw [hNode]; rfl)).symm
  have hSelf : ∀ type : Option TypeRef, Advances (· = i) (progress i [receiver])
      (progress i [receiver]) (Pure.pure type : Bind tree.size (Option TypeRef)) := fun type =>
    (Advances.pure type).widen (fun j h => h.elim) fun j name hj _ hOther =>
      absurd (hj ▸ hOther) (hName name)
  rw [infer, hNode, hEvents, hStart]
  refine Advances.thenSelf hChildren
    (Advances.lastPart hChildren (hVisit receiver (by simp [hChildren]) receivers)) fun type => ?_
  split
  · refine Advances.after Advances.get fun s => ?_
    split
    · exact hSelf _
    · exact (Advances.mark _ hName).andThen fun _ => Advances.pure _
  · exact hSelf _

/-- Binding what is below a node declares what the node exposes and binds the names in it. -/
theorem advances_infer (hProgram : tree.IsProgram) (hi : i ≠ tree.root)
    (ih : ∀ c, tree.height c < tree.height i → c ≠ tree.root → VisitAdvances config imports c)
    (receivers : List (Option TypeRef)) :
    Advances (fun j => tree.isWithin j i = true) (before i) (before i ++ reachedEvents [i])
      (infer tree config imports receivers i) := by
  have hVisit : ∀ c ∈ (tree.node i).children, VisitAdvances config imports c := fun c hc =>
    ih c (height_lt_of_mem_children hc) (ne_root_of_mem_children hc)
  cases hNode : tree.node i with
  | compilationUnit members => exact absurd (hProgram.eq_root (by rw [hNode]; rfl)) hi
  | method name returnType params body isAsync =>
      exact advances_infer_method hProgram hNode hVisit receivers
  | parameter name type =>
      rw [infer, hNode]
      exact Advances.leaf _ (by rw [hNode]; rfl) (by rw [hNode]; rfl)
  | block statements => exact advances_infer_block hNode hVisit receivers
  | expressionStatement expr =>
      have hChildren : (tree.node i).children = [expr] := by rw [hNode]; rfl
      rw [infer, hNode]
      refine Advances.plain (by rw [hNode]; rfl) hChildren ?_
      exact Advances.part hChildren ((hVisit expr (by simp [hChildren]) receivers).map _)
        fun _ => Advances.last _
  | localDeclaration name type init => exact advances_infer_localDeclaration hNode hVisit receivers
  | returnStatement value =>
      cases value with
      | none =>
          rw [infer, hNode]
          exact Advances.leaf _ (by rw [hNode]; rfl) (by rw [hNode]; rfl)
      | some value =>
          have hChildren : (tree.node i).children = [value] := by rw [hNode]; rfl
          rw [infer, hNode]
          refine Advances.plain (by rw [hNode]; rfl) hChildren ?_
          exact Advances.part hChildren ((hVisit value (by simp [hChildren]) receivers).map _)
            fun _ => Advances.last _
  | ifStatement condition thenBranch elseBranch =>
      exact advances_infer_ifStatement hNode hVisit receivers
  | identifier name =>
      rw [infer, hNode]
      refine Advances.lookup fun found hFound => ?_
      have hMark := advances_name_reached hNode hFound
      cases found with
      | none => exact hMark.andThen fun _ => Advances.pure _
      | some binding => exact hMark.andThen fun _ => Advances.pure _
  | this =>
      rw [infer, hNode]
      exact Advances.leaf _ (by rw [hNode]; rfl) (by rw [hNode]; rfl)
  | literal value =>
      rw [infer, hNode]
      exact Advances.leaf _ (by rw [hNode]; rfl) (by rw [hNode]; rfl)
  | memberAccess receiver member => exact advances_infer_memberAccess hNode hVisit receivers
  | conditionalAccess receiver rest =>
      have hChildren : (tree.node i).children = [receiver, rest] := by rw [hNode]; rfl
      rw [infer, hNode]
      refine Advances.plain (by rw [hNode]; rfl) hChildren ?_
      exact Advances.part hChildren (hVisit receiver (by simp [hChildren]) receivers) fun type =>
        Advances.lastPart hChildren (hVisit rest (by simp [hChildren]) _)
  | memberBinding member =>
      rw [infer, hNode]
      exact Advances.leaf _ (by rw [hNode]; rfl) (by rw [hNode]; rfl)
  | invocation callee args =>
      rw [infer, hNode]
      exact Advances.plain (by rw [hNode]; rfl) rfl (advances_inferCall hProgram hNode ih receivers)
  | outVariable name type =>
      have hChildren : (tree.node i).children = [] := by rw [hNode]; rfl
      have hGet : Advances (WithinAny []) (progress i []) (progress i [])
          (get : Bind tree.size (State tree.size)) :=
        Advances.get.congr fun j => ⟨fun h => h.elim, fun h => withinAny_nil j h⟩
      have hLocal := Advances.local
        (fun s : State tree.size => type <|> outVariableType tree config s.oracle i)
        (by rw [hNode]; rfl) (by rw [hNode]; rfl) hChildren hGet
      rw [infer, hNode]
      exact hLocal
  | unary op operand =>
      have hChildren : (tree.node i).children = [operand] := by rw [hNode]; rfl
      rw [infer, hNode]
      refine Advances.plain (by rw [hNode]; rfl) hChildren ?_
      refine Advances.part hChildren (hVisit operand (by simp [hChildren]) receivers) fun type => ?_
      cases op with
      | not => exact Advances.last _
      | negate => exact Advances.last _
  | binary op left right =>
      have hChildren : (tree.node i).children = [left, right] := by rw [hNode]; rfl
      rw [infer, hNode]
      refine Advances.plain (by rw [hNode]; rfl) hChildren ?_
      exact Advances.part hChildren (hVisit left (by simp [hChildren]) receivers) fun type =>
        Advances.part hChildren ((hVisit right (by simp [hChildren]) receivers).map _) fun _ =>
          Advances.last _
  | isPattern operand pattern =>
      have hChildren : (tree.node i).children = [operand] := by rw [hNode]; rfl
      rw [infer, hNode]
      refine Advances.plain (by rw [hNode]; rfl) hChildren ?_
      exact Advances.part hChildren ((hVisit operand (by simp [hChildren]) receivers).map _)
        fun _ => Advances.last _
  | conditional condition whenTrue whenFalse =>
      have hChildren : (tree.node i).children = [condition, whenTrue, whenFalse] := by
        rw [hNode]
        rfl
      rw [infer, hNode]
      refine Advances.plain (by rw [hNode]; rfl) hChildren ?_
      exact Advances.part hChildren ((hVisit condition (by simp [hChildren]) receivers).map _)
        fun _ => Advances.part hChildren (hVisit whenTrue (by simp [hChildren]) receivers)
          fun type => Advances.part hChildren (hVisit whenFalse (by simp [hChildren]) receivers)
            fun other => Advances.last _
  | lambda params body isAsync =>
      have hBody : body ∈ (tree.node i).children := by simp [hNode, Node.children]
      rw [infer, hNode]
      exact (advances_lambda hProgram hNode (hVisit body hBody) receivers none).andThen
        fun _ => Advances.pure _
  | await operand =>
      have hChildren : (tree.node i).children = [operand] := by rw [hNode]; rfl
      rw [infer, hNode]
      refine Advances.plain (by rw [hNode]; rfl) hChildren ?_
      refine Advances.part hChildren (hVisit operand (by simp [hChildren]) receivers) fun type => ?_
      cases type with
      | none => exact Advances.last _
      | some type => exact Advances.last _
  | parenthesized inner =>
      have hChildren : (tree.node i).children = [inner] := by rw [hNode]; rfl
      rw [infer, hNode]
      refine Advances.plain (by rw [hNode]; rfl) hChildren ?_
      exact Advances.lastPart hChildren (hVisit inner (by simp [hChildren]) receivers)

/-- **Visiting a node** declares what the node exposes and binds the names in it. -/
theorem advances_visit (hProgram : tree.IsProgram) (hi : i ≠ tree.root) :
    VisitAdvances config imports i := by
  induction hHeight : tree.height i using Nat.strongRecOn generalizing i with
  | ind height ih =>
      intro receivers
      have hBelow : ∀ c, tree.height c < tree.height i → c ≠ tree.root →
          VisitAdvances config imports c := fun c hc hRoot => ih _ (hHeight ▸ hc) hRoot rfl
      rw [visit]
      exact (advances_infer hProgram hi hBelow receivers).andThen fun type =>
        (Advances.record i type).andThen fun _ => Advances.pure _

/-! ## The unit -/

/-- A member of the unit is declared before anything is bound. -/
theorem Advances.declareMember (hProgram : tree.IsProgram) {start : List (Event tree.toArena)}
    {member : tree.Id} (hMember : tree.parent member = some tree.root) :
    Advances (· = member) start (start ++ [⟨false, member⟩]) (Binder.declareMember tree member) := by
  unfold Binder.declareMember
  have hKind := hProgram.kind_of_member hMember
  cases hNode : tree.node member with
  | method name returnType params body isAsync =>
      exact (Advances.declare returnType false (by rw [hNode]; rfl)).map _
  | localDeclaration name type init =>
      refine (Advances.declare type false (by rw [hNode]; rfl)).andThen fun binding => ?_
      intro s hStart _
      exact ⟨rfl, hStart, fun _ _ => rfl, fun _ _ h => h.elim⟩
  | _ => simp [hNode, Node.kind] at hKind

theorem Advances.declareMembers (hProgram : tree.IsProgram) {members : List tree.Id}
    (hNode : tree.node tree.root = .compilationUnit members) :
    Advances (· ∈ members) [] (progress tree.root []) (members.forM (Binder.declareMember tree)) := by
  have hChildren : (tree.node tree.root).children = members := by rw [hNode]; rfl
  have hEach : ∀ earlier member later, members = earlier ++ member :: later →
      Advances (· = member) (earlier.map fun c => (⟨false, c⟩ : Event tree.toArena))
        ((earlier ++ [member]).map fun c => ⟨false, c⟩) (Binder.declareMember tree member) := by
    intro earlier member later hSplit
    rw [List.map_append]
    exact Advances.declareMember hProgram
      ((tree.parent_eq_some_iff member tree.root).2 (by simp [hChildren, hSplit]))
  have hStop : progress tree.root [] = members.map fun c => (⟨false, c⟩ : Event tree.toArena) := by
    rw [progress, before_of_parent_none tree.parent_root, enteredEvents, hNode]
    simp [Node.entered, reachedEvents]
  rw [hStop]
  exact (Advances.forM (fun done => done.map fun c => (⟨false, c⟩ : Event tree.toArena)) hEach
    (pairwise_ne (hChildren ▸ tree.children_nodup tree.root))).congr fun j => by simp

/-- Binding the whole tree declares the members of the unit and then goes through them. -/
theorem advances_infer_root (hProgram : tree.IsProgram) : Advances (fun _ => True) []
    (progress tree.root (tree.node tree.root).children) (infer tree config imports [] tree.root) := by
  cases hNode : tree.node tree.root with
  | compilationUnit members =>
      have hChildren : (tree.node tree.root).children = members := by rw [hNode]; rfl
      have hVisit : ∀ c ∈ (tree.node tree.root).children, VisitAdvances config imports c :=
        fun c hc => advances_visit hProgram (ne_root_of_mem_children hc)
      rw [infer, hNode]
      -- members are declared and then bound, but they are no names themselves
      refine ((Advances.declareMembers hProgram hNode).bindNames (fun _ =>
        (advances_forM_visit hVisit hChildren []).andThen fun _ => Advances.pure none) ?_).widen
        (fun _ _ => trivial) ?_
      · intro j name hName hMember
        have hKind := hProgram.kind_of_member
          ((tree.parent_eq_some_iff j tree.root).2 (hChildren ▸ hMember))
        simp [hName, Node.kind] at hKind
      · intro j name _ hNot hName
        rcases isWithin_iff_part.1 (hProgram.connected j) with rfl | ⟨c, hc, hjc⟩
        · simp [hNode] at hName
        · exact absurd (.inr ⟨c, hChildren ▸ hc, hjc⟩) hNot
  | _ => exact absurd hProgram.root_kind (by simp [hNode, Node.kind])

/-- **A name gets the meaning it has at its place.** -/
theorem symbolOf_bindWith (hProgram : tree.IsProgram) {name : String}
    (hNode : tree.node i = .identifier name) :
    (bindWith tree config imports).symbolOf i = meaning (before i) name := by
  have hStart : Advances (fun _ => True) [] (progress tree.root (tree.node tree.root).children)
      (visit tree config imports [] tree.root) := by
    rw [visit]
    exact (advances_infer_root hProgram).andThen fun type =>
      (Advances.record tree.root type).andThen fun _ => Advances.pure _
  have hFresh : IsFresh (fun _ : tree.Id => True) (.empty tree.size) :=
    fun j _ _ _ => Oracle.symbolOf_empty j
  exact (hStart ⟨.empty, [], .empty tree.size⟩ rfl hFresh).bound i name trivial hNode

end Visit

end StateGuard.Binder
