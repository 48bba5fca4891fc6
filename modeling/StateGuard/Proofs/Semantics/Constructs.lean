import StateGuard.Proofs.Semantics.Visits

/-!
# One construct after another

Binding below a node follows the environments, for one kind of node after the other, given that
visiting its parts does: names and fields, declarations, scopes, conditional accesses and units.

## Main results

* `InferFollows.identifier`, `InferFollows.memberAccess`: a name gets what it stands for.
* `InferFollows.declares`, `Follows.scope`, `InferFollows.unit`: what declares names.
* `InferFollows.conditionalAccess`: what hands the type of its receiver on.
-/

namespace StateGuard.Binder

open Arena

variable {tree : Tree} {config : Config} {imports : Imports} {around : List tree.Id}
  {receivers : List (Option TypeRef)} {start stop env : Env tree.Id} {i c : tree.Id}

/-! ## Names and fields -/

section Names

variable {name member : String} {receiver : tree.Id} {w : Logged tree.size}

theorem eq_of_isWithin_leaf (hChildren : (tree.node i).children = []) {j : tree.Id}
    (hj : tree.isWithin j i = true) : j = i := by
  rcases isWithin_iff_part.1 hj with rfl | ⟨c, hc, -⟩
  · rfl
  · simp [hChildren] at hc

/-- Nothing happens to a node that resolves to no declaration. -/
theorem HasFollowed.unmarked (hSound : IsSound config w) (hTracks : Tracks env w.state)
    (hSymbol : w.state.oracle.symbolOf i = none) (hResolve : tree.resolve? i = none) :
    HasFollowed config (· = i) env w w where
  sound := hSound
  grows := .refl _
  symbolOf _ _ := rfl
  typeOf _ _ := rfl
  outer := rfl
  tracks := hTracks
  stack := rfl
  visits := List.Subset.refl _
  visited _ hv := .inl hv
  bound := by
    rintro - j member rfl ⟨⟨receiver, hNode, hThis⟩, -⟩
    have hField : (tree.envAt j).fields.find? member = none := by
      simpa [resolve?, hNode, hThis] using hResolve
    rw [hSymbol, hField]
    rfl

/-- **A name or a field** gets the symbol of what it stands for, and has its type. -/
theorem HasFollowed.named {found : Option Binding} (hSound : IsSound config w)
    (hTracks : Tracks env w.state) (hUnbound : IsUnbound w.state.oracle i)
    (hUnvisited : ∀ v ∈ w.visits, v.node ≠ i) (hName : (tree.node i).declaredName? = none)
    (hSpelling : (tree.node i).spelling? = some name)
    (hFound : Option.Rel (Stands w.state.oracle name) found (tree.resolve? i))
    (hBinding : ∀ member, tree.node i ≠ .memberBinding member) :
    let marks := found.elim w fun binding =>
      ((Logged.lift (Binder.mark i binding.symbol)).run w).2
    HasFollowed config (· = i) env w marks ∧
      IsSettled config marks i (found.bind (·.type)) := by
  obtain ⟨hNoSymbol, hNoType⟩ := hUnbound.of_not_declares hName
  generalize hResolve : tree.resolve? i = resolved at hFound
  cases hFound with
  | none =>
      refine ⟨.unmarked hSound hTracks hNoSymbol hResolve, ?_⟩
      exact {
        unvisited := hUnvisited
        recorded := .inr (.inl hNoType)
        known := fun known hKnown => absurd (hNoType.symm.trans hKnown) (by simp)
        agrees := fun symbol d hSymbol => absurd (hNoSymbol.symm.trans hSymbol) (by simp)
        binding := fun member hNode => absurd hNode (hBinding member) }
  | @some binding d hStands =>
      refine ⟨.mark hSound hTracks hUnbound hName hSpelling hResolve hStands, ?_⟩
      exact {
        unvisited := hUnvisited
        recorded := .inr (.inl hNoType)
        known := fun known hKnown => absurd (hNoType.symm.trans hKnown) (by simp)
        agrees := fun symbol d' _ hOther => by
          obtain rfl := Option.some.inj (hResolve.symm.trans hOther)
          exact .inr hStands.type
        binding := fun member hNode => absurd hNode (hBinding member) }

/-- A name has no parts and leaves the names in scope as they were. -/
theorem leave_identifier (hNode : tree.node i = .identifier name) (env : Env tree.Id) :
    tree.leave env i = env := by
  rw [leave_of_isOpen (by rw [hNode]; rfl), hNode]
  rfl

theorem isWithin_identifier (hNode : tree.node i = .identifier name) (j : tree.Id) :
    tree.isWithin j i = true ↔ j = i :=
  ⟨eq_of_isWithin_leaf (by rw [hNode]; rfl), fun h => h ▸ isWithin_self i⟩

theorem resolve?_identifier (hNode : tree.node i = .identifier name) :
    tree.resolve? i = (tree.envAt i).scopes.lookup name := by
  rw [resolve?, hNode]

/-- What an action does after it has looked up a name. -/
theorem Settles.lookup {nodes : tree.Id → Prop}
    {next : Option Binding → Logged.Bind tree.size (Option TypeRef)}
    {next' : Option Binding → Bind tree.size (Option TypeRef)}
    (h : Settles config nodes env i w (next (w.state.scopes.lookup name))
      (next' (w.state.scopes.lookup name))) :
    Settles config nodes env i w (Logged.lift (lookup name) >>= next) (lookup name >>= next') := h

/-- What an action does after it has read the state. -/
theorem Settles.get {nodes : tree.Id → Prop}
    {next : State tree.size → Logged.Bind tree.size (Option TypeRef)}
    {next' : State tree.size → Bind tree.size (Option TypeRef)}
    (h : Settles config nodes env i w (next w.state) (next' w.state)) :
    Settles config nodes env i w (Logged.lift get >>= next) (get >>= next') := h

/-- What an action does after it has gone through other nodes. -/
theorem Settles.after {α : Type} {nodes others : tree.Id → Prop}
    {first : Logged.Bind tree.size α} {first' : Bind tree.size α}
    {next : α → Logged.Bind tree.size (Option TypeRef)}
    {next' : α → Bind tree.size (Option TypeRef)}
    (hFirst : HasFollowed config nodes start w (first.run w).2 ∧ Erases w first first')
    (hNext : Settles config others stop i (first.run w).2 (next (first.run w).1)
      (next' (first.run w).1))
    (hApart : ∀ j, nodes j → ¬ others j) :
    Settles config (fun j => nodes j ∨ others j) stop i w (first >>= next) (first' >>= next') :=
  ⟨hFirst.1.trans hNext.1 fun _ j _ _ => hApart j, hFirst.2.bind hNext.2.1, hNext.2.2⟩

theorem InferFollows.identifier (hNode : tree.node i = .identifier name) :
    InferFollows config i receivers (Logged.infer tree config imports i)
      (infer tree config imports receivers i) := by
  intro w hReady
  have hHere : tree.isWithin i i = true := isWithin_self i
  have hFound : Option.Rel (Stands w.state.oracle name) (w.state.scopes.lookup name)
      (tree.resolve? i) := by
    rw [resolve?_identifier hNode]
    exact hReady.tracks.lookup name
  obtain ⟨hFollowed, hSettled⟩ := HasFollowed.named hReady.sound hReady.tracks
    (hReady.unbound i hHere) (fun v hv hEq => hReady.unvisited v hv (hEq ▸ hHere))
    (by rw [hNode]; rfl) (by rw [hNode]; rfl) hFound (by simp [hNode])
  have hNodes : (fun j => tree.isWithin j i = true) = (· = i) :=
    funext fun j => propext (isWithin_identifier hNode j)
  rw [Logged.infer, infer, hNode, leave_identifier hNode, hNodes]
  refine Settles.lookup ?_
  cases hLookup : w.state.scopes.lookup name with
  | none =>
      rw [hLookup] at hFollowed hSettled
      exact ⟨hFollowed, ⟨rfl, rfl⟩, hSettled⟩
  | some binding =>
      rw [hLookup] at hFollowed hSettled
      exact ⟨hFollowed, ⟨rfl, rfl⟩, hSettled⟩

/-- A node with one part is the part or what is within it. -/
theorem isWithin_of_only (hChildren : (tree.node i).children = [c]) :
    (fun j => tree.isWithin j i = true) = fun j => tree.isWithin j c = true ∨ j = i := by
  funext j
  rw [isWithin_iff_part, hChildren]
  simp [or_comm]

/-- A member access that does not read a field has no symbol. -/
theorem not_readsField_of_not_this (hNode : tree.node i = .memberAccess receiver member)
    (hThis : tree.isThis receiver = false) (other : String) : ¬ ReadsField i other := by
  rintro ⟨⟨receiver', hOther, hThis'⟩, -⟩
  obtain ⟨rfl, -⟩ := Node.memberAccess.inj (hNode.symm.trans hOther)
  simp [hThis] at hThis'

/-- The enclosing object leaves the names in scope as they were. -/
theorem leave_of_isThis (hThis : tree.isThis c = true) (env : Env tree.Id) :
    tree.leave env c = env := by
  have hNode : tree.node (tree.stripParens c) = .this := by
    unfold isThis at hThis
    split at hThis
    · assumption
    · cases hThis
  rw [← leave_stripParens, leave_of_isOpen (by rw [hNode]; rfl), hNode]
  rfl

theorem InferFollows.memberAccess (hNode : tree.node i = .memberAccess receiver member)
    (hVisit : VisitFollows config imports receiver) :
    InferFollows config i receivers (Logged.infer tree config imports i)
      (infer tree config imports receivers i) := by
  have hChildren : (tree.node i).children = [receiver] := by rw [hNode]; rfl
  have hPart : receiver ∈ (tree.node i).children := by simp [hChildren]
  have hOpen : isOpen (tree.node i) = true := by rw [hNode]; rfl
  have hSplit : (tree.node i).boundParts = [] ++ receiver :: [] := by rw [hNode]; rfl
  have hStart : tree.envAt receiver = tree.envAt i := by
    rw [envAt_of_boundParts hSplit, progressEnv_nil_of_isOpen hOpen]
  have hLeave : tree.leave (tree.envAt i) i = tree.leave (tree.envAt receiver) receiver := by
    rw [leave_of_isOpen hOpen, hSplit, hStart]
    rfl
  have hFirst := hVisit receivers
  rw [receiversAround_part hPart (by simp [hNode]), hStart] at hFirst
  have hNot : ¬ tree.isWithin i receiver = true := not_isWithin_part hPart
  rw [Logged.infer, infer, hNode]
  simp only
  cases hThis : tree.isThis receiver with
  | false =>
      rw [hStart] at hLeave
      rw [← hLeave] at hFirst
      refine InferFollows.of_follows (hFirst.andThen fun type => Follows.pure _)
        (fun j hj => isWithin_of_part hj hPart) hNot ?_ (by simp [hNode])
        (.inl (by simp [hNode, Node.declaredType?]))
      · intro _ j other hj hOther
        rw [congrFun (isWithin_of_only hChildren) j] at hj
        obtain rfl := hj.resolve_left hOther
        exact not_readsField_of_not_this hNode hThis other
  | true =>
      intro w hReady
      rw [hLeave, hStart, leave_of_isThis hThis]
      rw [isWithin_of_only hChildren] at hReady ⊢
      rw [leave_of_isThis hThis] at hFirst
      have hVisited := hFirst w (hReady.mono fun _ => .inl)
      have hApart : ∀ j, tree.isWithin j receiver = true → ¬ j = i := by
        rintro j hj rfl
        exact hNot hj
      have hNext := hReady.next hVisited.1 hApart
      refine Settles.after hVisited (Settles.get ?_) hApart
      generalize ((Logged.visit tree config imports receiver).run w).2 = w' at hNext ⊢
      have hFound : Option.Rel (Stands w'.state.oracle member) (w'.state.fields.find? member)
          (tree.resolve? i) := by
        simp only [resolve?, hNode, hThis, if_true]
        exact hNext.tracks.fields member
      obtain ⟨hFollowed, hSettled⟩ := HasFollowed.named hNext.sound hNext.tracks
        (hNext.unbound i rfl) (fun v hv => hNext.unvisited v hv) (by rw [hNode]; rfl)
        (by rw [hNode]; rfl) hFound (by simp [hNode])
      cases hField : w'.state.fields.find? member with
      | none =>
          rw [hField] at hFollowed hSettled
          exact ⟨hFollowed, ⟨rfl, rfl⟩, hSettled⟩
      | some field =>
          rw [hField] at hFollowed hSettled
          exact ⟨hFollowed, ⟨rfl, rfl⟩, hSettled⟩

end Names

/-! ## Declarations -/

section Declarations

variable {α : Type} {name : String} {parts : List tree.Id}

/-- **A declaration** is bound part by part before it declares itself. -/
theorem InferFollows.declares {first : Logged.Bind tree.size α} {first' : Bind tree.size α}
    (type : α → Option TypeRef) (hName : (tree.node i).declaredName? = some name)
    (hType : ∀ value declared, (tree.node i).declaredType? = some declared →
      type value = some declared)
    (hChildren : (tree.node i).children = parts)
    (hClose : ∀ around inner, tree.close around inner i =
      { inner with scopes := inner.scopes.declare name i })
    (hFirst : Follows config (WithinAny parts) (tree.receiversAround i) receivers (progressEnv i [])
      (progressEnv i parts) first first')
    (hStart : progressEnv i [] = tree.envAt i) (hParts : (tree.node i).boundParts = parts) :
    InferFollows config i receivers
      (do
        let value ← first
        discard <| Logged.lift <| Binder.declare i name (type value)
        return type value)
      (do
        let value ← first'
        discard <| Binder.declare i name (type value)
        return type value) := by
  intro w hReady
  have hNodes : (fun j => tree.isWithin j i = true) = fun j => WithinAny parts j ∨ j = i := by
    funext j
    rw [isWithin_iff_part, hChildren]
    simp only [WithinAny, eq_iff_iff]
    exact or_comm
  have hApart : ∀ j, WithinAny parts j → ¬ j = i := by
    rintro j hj rfl
    exact not_withinAny_self (by rw [hChildren]; exact List.Subset.refl _) hj
  rw [hNodes, ← hStart] at hReady
  have hVisited := hFirst w (hReady.mono fun _ => .inl)
  have hNext := hReady.next hVisited.1 hApart
  rw [leave_envAt, hClose, hParts, hNodes]
  refine Settles.after hVisited ?_ hApart
  generalize (first.run w).1 = value
  generalize (first.run w).2 = w' at hNext
  obtain ⟨hDeclared, hRecorded, -⟩ := HasFollowed.declare hNext.sound hNext.tracks
    (hNext.unbound i rfl) (fun v hv => hNext.unvisited v hv) hName (hType value)
  refine ⟨hDeclared, ⟨rfl, rfl⟩, ?_⟩
  exact {
    unvisited := fun v hv => hNext.unvisited v hv
    recorded := .inr (.inr hRecorded)
    known := fun known hKnown => .inr (hRecorded.symm.trans hKnown)
    agrees := fun symbol d _ hResolve =>
      .inl (Option.some.inj (hResolve.symm.trans (resolve?_of_declaredName? hName).1))
    binding := fun member hNode => by
      rw [hNode] at hName
      simp [Node.declaredName?] at hName }

/-- Visiting a part with the receivers that are around the node. -/
theorem VisitFollows.part (h : VisitFollows config imports c) (hc : c ∈ (tree.node i).children)
    (hOther : ∀ receiver rest, tree.node i = .conditionalAccess receiver rest → c = receiver)
    (receivers : List (Option TypeRef)) :
    Follows config (fun j => tree.isWithin j c = true) (tree.receiversAround i) receivers
      (tree.envAt c) (tree.leave (tree.envAt c) c) (Logged.visit tree config imports c)
      (visit tree config imports receivers c) :=
  receiversAround_part hc hOther ▸ h receivers

theorem InferFollows.localDeclaration {type : Option TypeRef} {init : Option tree.Id}
    (hNode : tree.node i = .localDeclaration name type init)
    (hVisit : ∀ c ∈ (tree.node i).children, VisitFollows config imports c) :
    InferFollows config i receivers (Logged.infer tree config imports i)
      (infer tree config imports receivers i) := by
  have hName : (tree.node i).declaredName? = some name := by rw [hNode]; rfl
  have hDeclared : (tree.node i).declaredType? = type := by rw [hNode]; rfl
  have hClose : ∀ around inner, tree.close around inner i =
      { inner with scopes := inner.scopes.declare name i } := by simp [close, hNode]
  have hStart : progressEnv i [] = tree.envAt i := by simp [progressEnv, enter, hNode]
  rw [Logged.infer, infer, hNode]
  cases init with
  | none =>
      -- with nothing to bind first, the rule is stated before it is compared with the goal
      have hAlone := InferFollows.declares (fun _ : Unit => type) hName
        (fun _ declared h => hDeclared.symm.trans h) (by rw [hNode]; rfl) hClose
        (Follows.last () : Follows config (WithinAny []) (tree.receiversAround i) receivers
          (progressEnv i []) (progressEnv i []) (Pure.pure ()) (Pure.pure ()))
        hStart (by rw [hNode]; rfl)
      exact hAlone
  | some init =>
      have hPart : init ∈ (tree.node i).children := by simp [hNode, Node.children]
      exact InferFollows.declares (type <|> ·) hName
        (fun value declared h => by simp [hDeclared.symm.trans h]) (by rw [hNode]; rfl) hClose
        (Follows.lastPart (by rw [hNode]; rfl)
          ((hVisit init hPart).part hPart (by simp [hNode]) receivers))
        hStart (by rw [hNode]; rfl)

theorem InferFollows.outVariable {type : Option TypeRef}
    (hNode : tree.node i = .outVariable name type) :
    InferFollows config i receivers (Logged.infer tree config imports i)
      (infer tree config imports receivers i) := by
  have hStart : progressEnv i [] = tree.envAt i := by simp [progressEnv, enter, hNode]
  have hGet : Follows config (WithinAny []) (tree.receiversAround i) receivers (progressEnv i [])
      (progressEnv i []) (Logged.lift get) get :=
    fun w hReady => ⟨(HasFollowed.refl hReady.sound hReady.tracks).widen (fun _ h => h.elim)
      fun _ j _ hj => absurd hj (withinAny_nil j), rfl, rfl⟩
  rw [Logged.infer, infer, hNode]
  exact InferFollows.declares
    (fun s : State tree.size => type <|> outVariableType tree config s.oracle i)
    (by rw [hNode]; rfl) (by simp [hNode, Node.declaredType?]) (by rw [hNode]; rfl)
    (by simp [close, hNode]) hGet hStart (by rw [hNode]; rfl)

end Declarations

/-! ## Scopes -/

section Scopes

variable {α β : Type} {params : List tree.Id} {body : tree.Id}

/-- **A method or lambda** declares its parameters in a scope of its own and binds its body there.
-/
theorem Follows.scope {declares : Logged.Bind tree.size α} {declares' : Bind tree.size α}
    {binds : Logged.Bind tree.size β} {binds' : Bind tree.size β}
    (hChildren : (tree.node i).children = params ++ [body])
    (hParts : (tree.node i).boundParts = [body])
    (hEnter : tree.enter (tree.envAt i) i = params.foldl tree.enterParameter
      { tree.envAt i with scopes := (tree.envAt i).scopes.push })
    (hClose : ∀ around inner, tree.close around inner i =
      { inner with scopes := around.scopes })
    (hDeclares : Follows config (· ∈ params) around receivers
      { tree.envAt i with scopes := (tree.envAt i).scopes.push }
      (params.foldl tree.enterParameter
        { tree.envAt i with scopes := (tree.envAt i).scopes.push }) declares declares')
    (hBody : Follows config (fun j => tree.isWithin j body = true) around receivers
      (tree.envAt body) (tree.leave (tree.envAt body) body) binds binds') :
    Follows config (fun j => j ∈ params ∨ tree.isWithin j body = true) around receivers
      (tree.envAt i) (tree.leave (tree.envAt i) i) (Logged.inScope (declares >>= fun _ => binds))
      (Binder.inScope (declares' >>= fun _ => binds')) := by
  have hSplit : (tree.node i).boundParts = [] ++ body :: [] := hParts
  have hNodup := tree.children_nodup i
  rw [hChildren, List.nodup_append] at hNodup
  have hApart : ∀ j, j ∈ params → ¬ tree.isWithin j body = true := by
    intro j hj hWithin
    have hEq := eq_of_isWithin_parts (p := i) (by rw [hChildren]; simp [hj])
      (by rw [hChildren]; simp) (isWithin_self j) hWithin
    exact hNodup.2.2 j hj body (by simp) hEq
  rw [← hEnter] at hDeclares
  rw [envAt_of_boundParts hSplit, ← progressEnv_append] at hBody
  rw [leave_envAt, hClose, hParts]
  exact Follows.inScope (hDeclares.bind (fun _ => hBody) hApart)

/-- In a program, parameters are all that a method or lambda has besides its body. -/
theorem not_readsField_outside (hChildren : (tree.node i).children = params ++ [body])
    (hParams : tree.IsProgram → ∀ p ∈ params, (tree.node p).kind = .parameter)
    (hAccess : (tree.node i).kind ≠ .memberAccess) (hProgram : tree.IsProgram) (j : tree.Id)
    (member : String) (hj : tree.isWithin j i = true)
    (hNot : ¬ (j ∈ params ∨ tree.isWithin j body = true)) : ¬ ReadsField j member := by
  rw [not_or] at hNot
  rcases isWithin_iff_part.1 hj with rfl | ⟨p, hp, hjp⟩
  · exact not_readsField_of_kind hAccess member
  · rw [hChildren, List.mem_append, List.mem_singleton] at hp
    rcases hp with hp | rfl
    · obtain rfl := eq_of_isWithin_parameter (hParams hProgram p hp) hjp
      exact absurd hp hNot.1
    · exact absurd hjp hNot.2

/-- A method or lambda is not among its parameters nor within its body. -/
theorem not_within_scope (hChildren : (tree.node i).children = params ++ [body]) :
    ¬ (i ∈ params ∨ tree.isWithin i body = true) := by
  rintro (hMem | hWithin)
  · exact not_isWithin_part (by rw [hChildren]; simp [hMem]) (isWithin_self i)
  · exact not_isWithin_part (by rw [hChildren]; simp) hWithin

theorem isWithin_of_scope (hChildren : (tree.node i).children = params ++ [body]) (j : tree.Id)
    (hj : j ∈ params ∨ tree.isWithin j body = true) : tree.isWithin j i = true := by
  rcases hj with hMem | hWithin
  · exact isWithin_of_part (isWithin_self j) (by rw [hChildren]; simp [hMem])
  · exact isWithin_of_part hWithin (by rw [hChildren]; simp)

theorem lambda_params {isAsync : Bool} (hNode : tree.node i = .lambda params body isAsync)
    (hProgram : tree.IsProgram) : ∀ p ∈ params, (tree.node p).kind = .parameter := by
  have hSorted := hProgram.sorted i
  rw [hNode] at hSorted
  exact hSorted.1

/-- A lambda, whatever the types of its parameters. -/
theorem Follows.lambda {isAsync : Bool} {binds : Logged.Bind tree.size β}
    {binds' : Bind tree.size β} (hNode : tree.node i = .lambda params body isAsync)
    (element : Option TypeRef)
    (hBody : Follows config (fun j => tree.isWithin j body = true) around receivers
      (tree.envAt body) (tree.leave (tree.envAt body) body) binds binds') :
    Follows config (fun j => j ∈ params ∨ tree.isWithin j body = true) around receivers
      (tree.envAt i) (tree.leave (tree.envAt i) i)
      (Logged.inScope
        (Logged.lift (Binder.declareParameters tree params element) >>= fun _ => binds))
      (Binder.inScope (Binder.declareParameters tree params element >>= fun _ => binds')) := by
  have hChildren : (tree.node i).children = params ++ [body] := by rw [hNode]; rfl
  have hNodup := tree.children_nodup i
  rw [hChildren] at hNodup
  exact Follows.scope hChildren (by rw [hNode]; rfl) (by simp [enter, hNode])
    (by simp [close, hNode])
    (Follows.declareParameters element (lambda_params hNode) (List.nodup_append.1 hNodup).1) hBody

theorem InferFollows.lambda {isAsync : Bool} (hNode : tree.node i = .lambda params body isAsync)
    (hVisit : ∀ c ∈ (tree.node i).children, VisitFollows config imports c) :
    InferFollows config i receivers (Logged.infer tree config imports i)
      (infer tree config imports receivers i) := by
  have hChildren : (tree.node i).children = params ++ [body] := by rw [hNode]; rfl
  have hPart : body ∈ (tree.node i).children := by simp [hChildren]
  have hBody := (hVisit body hPart).part hPart (by simp [hNode]) receivers
  rw [Logged.infer, infer, hNode]
  exact InferFollows.of_follows
    ((Follows.lambda hNode none hBody.discard).andThen fun _ => Follows.pure none)
    (isWithin_of_scope hChildren) (not_within_scope hChildren)
    (not_readsField_outside hChildren (lambda_params hNode) (by rw [hNode]; simp [Node.kind]))
    (by simp [hNode]) (.inr fun _ => rfl)

theorem InferFollows.method {name : String} {returnType : Option TypeRef} {isAsync : Bool}
    (hNode : tree.node i = .method name returnType params body isAsync)
    (hVisit : ∀ c ∈ (tree.node i).children, VisitFollows config imports c) :
    InferFollows config i receivers (Logged.infer tree config imports i)
      (infer tree config imports receivers i) := by
  have hChildren : (tree.node i).children = params ++ [body] := by rw [hNode]; rfl
  have hPart : body ∈ (tree.node i).children := by simp [hChildren]
  have hBody := (hVisit body hPart).part hPart (by simp [hNode]) receivers
  have hNodup := tree.children_nodup i
  rw [hChildren] at hNodup
  have hParams : tree.IsProgram → ∀ p ∈ params, (tree.node p).kind = .parameter := by
    intro hProgram
    have hSorted := hProgram.sorted i
    rw [hNode] at hSorted
    exact hSorted.1
  rw [Logged.infer, infer, hNode]
  refine InferFollows.of_follows ((Follows.scope hChildren (by rw [hNode]; rfl)
      (by simp [enter, hNode]) (by simp [close, hNode])
      (Follows.forM_declareParameter hParams (List.nodup_append.1 hNodup).1) hBody.discard).andThen
        fun _ => Follows.pure none)
    (isWithin_of_scope hChildren) (not_within_scope hChildren)
    (not_readsField_outside hChildren hParams (by rw [hNode]; simp [Node.kind]))
    (by simp [hNode]) (.inr fun _ => rfl)

end Scopes

/-! ## Lists of parts -/

section Lists

variable {parts : List tree.Id}

/-- The statements of a block, or the members of a unit, are visited one after the other. -/
theorem follows_forM_visit
    (hVisit : ∀ c ∈ (tree.node i).children, VisitFollows config imports c)
    (hParts : (tree.node i).boundParts = parts)
    (hOther : (tree.node i).kind ≠ .conditionalAccess) (receivers : List (Option TypeRef)) :
    Follows config (WithinAny parts) (tree.receiversAround i) receivers (progressEnv i [])
      (progressEnv i parts)
      (parts.attach.forM fun ⟨c, _⟩ => discard (Logged.visit tree config imports c))
      (parts.attach.forM fun ⟨c, _⟩ => discard (visit tree config imports receivers c)) := by
  have hSub := (Node.boundParts_sublist (tree.node i)).subset
  have hValues : parts.attach.map (·.1) = parts := by simp
  have hEach : ∀ (earlier : List { c // c ∈ parts }) x later, parts.attach = earlier ++ x :: later →
      Follows config (fun j => tree.isWithin j x.1 = true) (tree.receiversAround i) receivers
        (progressEnv i (earlier.map (·.1))) (progressEnv i ((earlier ++ [x]).map (·.1)))
        (discard (Logged.visit tree config imports x.1))
        (discard (visit tree config imports receivers x.1)) := by
    intro earlier x later hSplit
    have hAll : (tree.node i).boundParts = earlier.map (·.1) ++ x.1 :: later.map (·.1) :=
      hParts.trans (eq_append_of_attach hSplit)
    have hPart : x.1 ∈ (tree.node i).children := hSub (by rw [hParts]; exact x.2)
    have h := (hVisit x.1 hPart).part hPart
      (fun _ _ hNode => absurd (by rw [hNode]; rfl) hOther) receivers
    rw [envAt_of_boundParts hAll, ← progressEnv_append] at h
    rw [List.map_append]
    exact h.discard
  have hApart : parts.attach.Pairwise fun x y => ∀ j,
      tree.isWithin j x.1 = true → ¬ tree.isWithin j y.1 = true := by
    have hPairs := (pairwise_apart i).sublist (Node.boundParts_sublist (tree.node i))
    rw [hParts, ← hValues, List.pairwise_map] at hPairs
    exact hPairs
  have h := Follows.forM (fun done : List { c // c ∈ parts } => progressEnv i (done.map (·.1)))
    hEach hApart
  rw [hValues] at h
  exact h.congr fun j => by simp [WithinAny]

theorem InferFollows.block (hNode : tree.node i = .block parts)
    (hVisit : ∀ c ∈ (tree.node i).children, VisitFollows config imports c) :
    InferFollows config i receivers (Logged.infer tree config imports i)
      (infer tree config imports receivers i) := by
  have hChildren : (tree.node i).children = parts := by rw [hNode]; rfl
  have hParts : (tree.node i).boundParts = parts := by rw [hNode]; rfl
  have hAll := follows_forM_visit hVisit hParts (by rw [hNode]; simp [Node.kind]) receivers
  have hStart : progressEnv i [] =
      { tree.envAt i with scopes := (tree.envAt i).scopes.push } := by
    simp [progressEnv, enter, hNode]
  have hLeave : tree.leave (tree.envAt i) i =
      { progressEnv i parts with scopes := (tree.envAt i).scopes } := by
    rw [leave_envAt, hParts]
    simp [close, hNode]
  rw [hStart] at hAll
  rw [Logged.infer, infer, hNode]
  refine InferFollows.of_parts hChildren (by rw [hNode]; simp [Node.kind])
    (by rw [hNode]; simp [Node.kind]) (.inr fun _ => rfl) ?_
  rw [hLeave]
  exact hAll.inScope.andThen fun _ => Follows.pure none

end Lists

/-! ## Conditional accesses -/

theorem computed_visit (c : tree.Id) (w : Logged tree.size) :
    Computed ((Logged.visit tree config imports c).run w).2.visits c
      ((Logged.visit tree config imports c).run w).1 := by
  rw [visit_run]
  exact ⟨_, List.mem_cons_self, rfl, rfl⟩

/-- **A conditional access** binds its second part with the type of its receiver on the stack. -/
theorem InferFollows.conditionalAccess {receiver rest : tree.Id}
    (hNode : tree.node i = .conditionalAccess receiver rest)
    (hVisit : ∀ c ∈ (tree.node i).children, VisitFollows config imports c) :
    InferFollows config i receivers (Logged.infer tree config imports i)
      (infer tree config imports receivers i) := by
  have hParts : (tree.node i).boundParts = [receiver, rest] := by rw [hNode]; rfl
  have hOpen : isOpen (tree.node i) = true := by rw [hNode]; rfl
  have hPart : receiver ∈ (tree.node i).children := by simp [hNode, Node.children]
  have hFirst := (hVisit receiver hPart).part hPart
    (fun _ _ h => (Node.conditionalAccess.inj (hNode.symm.trans h)).1) receivers
  have hRest : ∀ type, Follows config (fun j => tree.isWithin j rest = true)
      (tree.receiversAround i ++ [receiver]) (type :: receivers) (tree.envAt rest)
      (tree.leave (tree.envAt rest) rest) (Logged.visit tree config imports rest)
      (visit tree config imports (type :: receivers) rest) := fun type =>
    receiversAround_rest hNode ▸ hVisit rest (by simp [hNode, Node.children]) (type :: receivers)
  have hSplit : (tree.node i).boundParts = [] ++ receiver :: [rest] := hParts
  have hSplit' : (tree.node i).boundParts = [receiver] ++ rest :: [] := hParts
  rw [envAt_of_boundParts hSplit, ← progressEnv_append] at hFirst
  rw [envAt_of_boundParts hSplit', ← progressEnv_append] at hRest
  rw [Logged.infer, infer, hNode]
  refine InferFollows.plain (by rw [hNode]; rfl) hParts ?_
  refine (Follows.access hFirst (computed_visit receiver) hRest fun j hj hOther =>
    not_withinAny_later_bound hSplit hj ⟨rest, List.mem_singleton_self _, hOther⟩).congr fun j => ?_
  simp [WithinAny]

/-! ## Units -/

section Units

variable {m p : tree.Id} {members : List tree.Id} {w : Logged tree.size}

/-- What is recorded about a member that has been declared is what it declares. -/
theorem IsUnbound.of_declared {o : Oracle tree.size} {name : String} {type : Option TypeRef}
    (hParent : tree.parent m = some p) (hNode : tree.node p = .compilationUnit members)
    (hName : (tree.node m).declaredName? = some name)
    (hDeclared : (tree.node m).declaredType? = type) (hType : o.typeOf m = type)
    (hStands : Stands o name ⟨Binder.symbolOf name m, type⟩ m) : IsUnbound o m := by
  have hMember : IsMember m := ⟨⟨name, hName⟩, p, members, hParent, hNode⟩
  exact {
    symbolOf := fun symbol hSymbol =>
      ⟨hMember, name, hName, Option.some.inj (hSymbol.symm.trans hStands.marked)⟩
    typeOf := fun known hKnown => ⟨hMember, hDeclared.trans (hType.symm.trans hKnown)⟩ }

/-- A declaration can also be made a field. -/
theorem HasFollowed.insertField {nodes : tree.Id → Prop} {w' : Logged tree.size} {name : String}
    {binding : Binding} {d : tree.Id} (h : HasFollowed config nodes env w w')
    (hStands : Stands w'.state.oracle name binding d) :
    HasFollowed config nodes { env with fields := env.fields.insert name d } w
      { w' with state := { w'.state with fields := w'.state.fields.insert name binding } } where
  sound := h.sound.congr rfl rfl
  grows := h.grows
  symbolOf := h.symbolOf
  typeOf := h.typeOf
  outer := h.outer
  tracks := ⟨h.tracks.innermost, h.tracks.outer, h.tracks.fields.insert hStands⟩
  stack := h.stack
  visits := h.visits
  visited := h.visited
  bound := h.bound

/-- In a program, the members of the unit are declarations. -/
theorem not_readsField_of_member (hProgram : tree.IsProgram) (hParent : tree.parent m = some p)
    (hNode : tree.node p = .compilationUnit members) (other : String) : ¬ ReadsField m other := by
  obtain rfl := hProgram.eq_root (by rw [hNode]; rfl)
  rcases hProgram.kind_of_member hParent with hKind | hKind
  · exact not_readsField_of_kind (by simp [hKind]) other
  · exact not_readsField_of_kind (by simp [hKind]) other

/-- A member of a unit is declared, which is all that is recorded about it. -/
theorem HasFollowed.declareMember (hParent : tree.parent m = some p)
    (hNode : tree.node p = .compilationUnit members) (hSound : IsSound config w)
    (hTracks : Tracks env w.state) (hUnbound : IsUnbound w.state.oracle m)
    (hUnvisited : ∀ v ∈ w.visits, v.node ≠ m) :
    HasFollowed config (· = m) (tree.enterMember env m) w
        ((Logged.lift (Binder.declareMember tree m)).run w).2 ∧
      IsUnbound ((Logged.lift (Binder.declareMember tree m)).run w).2.state.oracle m := by
  unfold Binder.declareMember Arena.enterMember
  cases hMember : tree.node m with
  | method name returnType params body isAsync =>
      have hDeclared : (tree.node m).declaredType? = returnType := by rw [hMember]; rfl
      have hName : (tree.node m).declaredName? = some name := by rw [hMember]; rfl
      obtain ⟨h, hType, hStands⟩ := HasFollowed.declare hSound hTracks hUnbound
        hUnvisited hName fun declared hd => hDeclared.symm.trans hd
      exact ⟨h, .of_declared hParent hNode hName hDeclared hType hStands⟩
  | localDeclaration name type init =>
      have hDeclared : (tree.node m).declaredType? = type := by rw [hMember]; rfl
      have hName : (tree.node m).declaredName? = some name := by rw [hMember]; rfl
      obtain ⟨h, hType, hStands⟩ := HasFollowed.declare hSound hTracks hUnbound
        hUnvisited hName fun declared hd => hDeclared.symm.trans hd
      exact ⟨h.insertField hStands, .of_declared hParent hNode hName hDeclared hType hStands⟩
  | _ =>
      refine ⟨(HasFollowed.refl hSound hTracks).widen (fun _ h => h.elim) ?_, hUnbound⟩
      rintro hProgram j other rfl -
      exact not_readsField_of_member hProgram hParent hNode other

/-- All members of a unit are declared before any of them is bound. -/
theorem HasFollowed.declareMembers {ms : List tree.Id}
    (hNode : tree.node p = .compilationUnit members) (hParent : ∀ m ∈ ms, tree.parent m = some p)
    (hNodup : ms.Nodup) (hSound : IsSound config w) (hTracks : Tracks env w.state)
    (hUnbound : ∀ m ∈ ms, IsUnbound w.state.oracle m) (hUnvisited : ∀ v ∈ w.visits, v.node ∉ ms) :
    HasFollowed config (· ∈ ms) (ms.foldl tree.enterMember env) w
        ((Logged.lift (ms.forM (Binder.declareMember tree))).run w).2 ∧
      ∀ m ∈ ms, IsUnbound
        ((Logged.lift (ms.forM (Binder.declareMember tree))).run w).2.state.oracle m := by
  induction ms generalizing w env with
  | nil =>
      refine ⟨(HasFollowed.refl hSound hTracks).widen (fun _ h => h.elim) ?_, by simp⟩
      simp
  | cons m ms ih =>
      rw [List.nodup_cons] at hNodup
      obtain ⟨h, hHere⟩ := HasFollowed.declareMember (hParent m List.mem_cons_self) hNode hSound
        hTracks (hUnbound m List.mem_cons_self) fun v hv hEq => hUnvisited v hv (by simp [hEq])
      have hRun : (Logged.lift ((m :: ms).forM (Binder.declareMember tree))).run w =
          (Logged.lift (ms.forM (Binder.declareMember tree))).run
            ((Logged.lift (Binder.declareMember tree m)).run w).2 := rfl
      rw [hRun]
      obtain ⟨h', hOthers⟩ := ih (fun m' hm' => hParent m' (List.mem_cons_of_mem _ hm')) hNodup.2
        h.sound h.tracks
        (fun m' hm' => h.isUnbound (fun hEq => hNodup.1 (hEq ▸ hm'))
          (hUnbound m' (List.mem_cons_of_mem _ hm')))
        (fun v hv hMem => hUnvisited v hv (List.mem_cons_of_mem _ hMem))
      refine ⟨?_, ?_⟩
      · have hAll := h.trans h' fun _ j _ _ hEq hMem => hNodup.1 (hEq ▸ hMem)
        refine hAll.widen (fun j hj => by simpa using hj) fun _ j _ hj hNot => ?_
        exact absurd (by simpa using hj) hNot
      · intro m' hm'
        rcases List.mem_cons.1 hm' with rfl | hm'
        · exact h'.isUnbound hNodup.1 hHere
        · exact hOthers m' hm'

/-- When all members have been declared, the binder is ready to go through them. -/
theorem Ready.declareMembers (hNode : tree.node i = .compilationUnit members)
    (hReady : Ready config (WithinAny members) around receivers env w) :
    HasFollowed config (· ∈ members) (members.foldl tree.enterMember env) w
        ((Logged.lift (members.forM (Binder.declareMember tree))).run w).2 ∧
      Ready config (WithinAny members) around receivers (members.foldl tree.enterMember env)
        ((Logged.lift (members.forM (Binder.declareMember tree))).run w).2 := by
  have hChildren : (tree.node i).children = members := by rw [hNode]; rfl
  have hMember : ∀ m ∈ members, WithinAny members m := fun m hm => ⟨m, hm, isWithin_self m⟩
  obtain ⟨h, hUnbound⟩ := HasFollowed.declareMembers hNode
    (fun m hm => (tree.parent_eq_some_iff m i).2 (hChildren ▸ hm))
    (hChildren ▸ tree.children_nodup i) hReady.sound hReady.tracks
    (fun m hm => hReady.unbound m (hMember m hm))
    (fun v hv hm => hReady.unvisited v hv (hMember _ hm))
  refine ⟨h, ?_⟩
  exact {
    sound := h.sound
    unbound := fun j hj => by
      by_cases hm : j ∈ members
      · exact hUnbound j hm
      · exact h.isUnbound hm (hReady.unbound j hj)
    unvisited := fun v hv => hReady.unvisited v hv
    tracks := h.tracks
    stack := hReady.stack
    computed := hReady.computed }

/-- **A unit** declares its members before it binds them. -/
theorem InferFollows.unit (hNode : tree.node i = .compilationUnit members)
    (hVisit : ∀ c ∈ (tree.node i).children, VisitFollows config imports c) :
    InferFollows config i receivers (Logged.infer tree config imports i)
      (infer tree config imports receivers i) := by
  have hChildren : (tree.node i).children = members := by rw [hNode]; rfl
  have hParts : (tree.node i).boundParts = members := by rw [hNode]; rfl
  have hStart : progressEnv i [] = members.foldl tree.enterMember (tree.envAt i) := by
    simp [progressEnv, enter, hNode]
  have hLeave : tree.leave (tree.envAt i) i = progressEnv i members := by
    rw [leave_envAt, hParts]
    simp [close, hNode]
  have hVisits := follows_forM_visit hVisit hParts (by rw [hNode]; simp [Node.kind]) receivers
  rw [hStart] at hVisits
  have hBelow : Follows config (WithinAny members) (tree.receiversAround i) receivers (tree.envAt i)
      (tree.leave (tree.envAt i) i)
      (Logged.lift (members.forM (declareMember tree)) >>= fun _ => members.attach.forM
        fun ⟨member, _⟩ => discard <| Logged.visit tree config imports member)
      (members.forM (declareMember tree) >>= fun _ => members.attach.forM
        fun ⟨member, _⟩ => discard <| visit tree config imports receivers member) := by
    intro w hReady
    obtain ⟨h, hNext⟩ := hReady.declareMembers hNode
    obtain ⟨h', hErases⟩ := hVisits _ hNext
    rw [hLeave]
    refine ⟨?_, (Erases.lift w _).bind hErases⟩
    -- members are declared and then bound, but they read no fields themselves
    refine (h.trans h' ?_).widen ?_ ?_
    · intro hProgram j member hReads hm
      have hParent := (tree.parent_eq_some_iff j i).2 (hChildren ▸ hm)
      exact absurd hReads (not_readsField_of_member hProgram hParent hNode member)
    · rintro j (hm | hj)
      · exact ⟨j, hm, isWithin_self j⟩
      · exact hj
    · exact fun _ j _ hj hNot => absurd (.inr hj) hNot
  rw [Logged.infer, infer, hNode]
  exact InferFollows.of_parts hChildren (by rw [hNode]; simp [Node.kind])
    (by rw [hNode]; simp [Node.kind]) (.inr fun _ => rfl)
    (hBelow.andThen fun _ => Follows.pure none)

end Units

end StateGuard.Binder
