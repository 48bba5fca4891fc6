import StateGuard.Proofs.Semantics.Binding
import StateGuard.Proofs.Semantics.Following

/-!
# Visits follow the environments

A visit binds all below a node, records the result and is logged.  If binding below the node follows
the environments, and the result fits what has been recorded about the node so far, so does the
visit.  Most nodes are plain: they declare nothing, stand for nothing, and are bound part by part.

## Main results

* `Follows.declareParameters`, `Follows.part`: parameters and parts, one after the other.
* `IsSettled`, `visitFollows_of_inferFollows`: results, and the visits that record them.
* `InferFollows.of_parts`, `InferFollows.plain`: a node whose parts are all there is to it.
-/

namespace StateGuard.Binder

open Arena

variable {tree : Tree} {config : Config} {imports : Imports} {around : List tree.Id}
  {receivers : List (Option TypeRef)} {start stop env : Env tree.Id} {i c : tree.Id}

/-! ## Parameters -/

section Parameters

theorem lift_forM {n : Nat} {ι : Type} (xs : List ι) (f : ι → Bind n PUnit) :
    Logged.lift (xs.forM f) = xs.forM fun x => Logged.lift (f x) := by
  induction xs with
  | nil => rfl
  | cons x xs ih =>
      show Logged.lift (f x >>= fun _ => xs.forM f) =
        Logged.lift (f x) >>= fun _ => xs.forM fun x => Logged.lift (f x)
      rw [← ih]
      rfl

theorem Follows.discard {α : Type} {nodes : tree.Id → Prop} {logged : Logged.Bind tree.size α}
    {action : Bind tree.size α}
    (h : Follows config nodes around receivers start stop logged action) :
    Follows config nodes around receivers start stop (discard logged) (discard action) :=
  h.map fun _ => PUnit.unit

theorem not_readsField_of_kind {j : tree.Id} (hKind : (tree.node j).kind ≠ .memberAccess)
    (member : String) : ¬ ReadsField j member := by
  rintro ⟨⟨receiver, hNode, -⟩, -⟩
  exact hKind (by rw [hNode]; rfl)

theorem Follows.declareParameter {param : tree.Id} (inferred : Option TypeRef)
    (hParam : tree.IsProgram → (tree.node param).kind = .parameter) :
    Follows config (· = param) around receivers env (tree.enterParameter env param)
      (Logged.lift (declareParameter tree param inferred))
      (declareParameter tree param inferred) := by
  unfold Binder.declareParameter Arena.enterParameter
  cases hNode : tree.node param with
  | parameter name type =>
      exact (Follows.declare (by rw [hNode]; rfl) (by simp [hNode, Node.declaredType?])).discard
  | _ =>
      refine (Follows.pure PUnit.unit).widen (fun _ h => h.elim) ?_
      rintro hProgram j member rfl -
      exact not_readsField_of_kind (by simp [hParam hProgram]) member

theorem Follows.forM_declareParameter {params : List tree.Id}
    (hParams : tree.IsProgram → ∀ p ∈ params, (tree.node p).kind = .parameter)
    (hNodup : params.Nodup) :
    Follows config (· ∈ params) around receivers env (params.foldl tree.enterParameter env)
      (Logged.lift (params.forM fun param => Binder.declareParameter tree param none))
      (params.forM fun param => Binder.declareParameter tree param none) := by
  have hEach : ∀ earlier p later, params = earlier ++ p :: later →
      Follows config (fun j => j = p) around receivers (earlier.foldl tree.enterParameter env)
        ((earlier ++ [p]).foldl tree.enterParameter env)
        (Logged.lift (Binder.declareParameter tree p none))
        (Binder.declareParameter tree p none) := by
    intro earlier p later hSplit
    rw [List.foldl_append]
    exact Follows.declareParameter none fun hProgram => hParams hProgram p (by simp [hSplit])
  rw [lift_forM]
  exact (Follows.forM (fun done => done.foldl tree.enterParameter env) hEach
    (pairwise_ne hNodup)).congr fun j => by simp

theorem Follows.declareParameters {params : List tree.Id} (element : Option TypeRef)
    (hParams : tree.IsProgram → ∀ p ∈ params, (tree.node p).kind = .parameter)
    (hNodup : params.Nodup) :
    Follows config (· ∈ params) around receivers env (params.foldl tree.enterParameter env)
      (Logged.lift (Binder.declareParameters tree params element))
      (Binder.declareParameters tree params element) := by
  cases params with
  | nil => exact (Follows.pure PUnit.unit).congr fun j => by simp
  | cons first rest =>
      rw [List.nodup_cons] at hNodup
      have hFirst : Follows config (· = first) around receivers env
          (tree.enterParameter env first)
          (Logged.lift (Binder.declareParameter tree first element))
          (Binder.declareParameter tree first element) :=
        Follows.declareParameter element fun hProgram => hParams hProgram first List.mem_cons_self
      refine (hFirst.bind (fun _ => Follows.forM_declareParameter (fun hProgram p hp =>
        hParams hProgram p (List.mem_cons_of_mem _ hp)) hNodup.2) ?_).congr fun j => by simp
      rintro j rfl
      exact hNodup.1

end Parameters

/-! ## Parts -/

section Parts

variable {α β : Type} {done rest : List tree.Id}

/-- Nothing is both within a bound part of a node and within a later one. -/
theorem not_withinAny_later_bound {j : tree.Id}
    (hSplit : (tree.node i).boundParts = done ++ c :: rest)
    (hj : tree.isWithin j c = true) : ¬ WithinAny rest j := by
  rintro ⟨e, he, hje⟩
  have hSublist := Node.boundParts_sublist (tree.node i)
  have hNodup := (tree.children_nodup i).sublist hSublist
  obtain rfl := eq_of_isWithin_parts (p := i) (hSublist.subset (by simp [hSplit]))
    (hSublist.subset (by simp [hSplit, he])) hj hje
  rw [hSplit, List.nodup_append, List.nodup_cons] at hNodup
  exact hNodup.2.1.1 he

/-- **One bound part of a node after another.** -/
theorem Follows.part {first : Logged.Bind tree.size α} {first' : Bind tree.size α}
    {next : α → Logged.Bind tree.size β} {next' : α → Bind tree.size β}
    (hSplit : (tree.node i).boundParts = done ++ c :: rest)
    (hFirst : Follows config (fun j => tree.isWithin j c = true) around receivers (tree.envAt c)
      (tree.leave (tree.envAt c) c) first first')
    (hNext : ∀ value, Follows config (WithinAny rest) around receivers
      (progressEnv i (done ++ [c])) stop (next value) (next' value)) :
    Follows config (WithinAny (c :: rest)) around receivers (progressEnv i done) stop
      (first >>= next) (first' >>= next') := by
  rw [envAt_of_boundParts hSplit, ← progressEnv_append] at hFirst
  refine (hFirst.bind hNext fun j hj => not_withinAny_later_bound hSplit hj).congr fun j => ?_
  rw [withinAny_cons]

/-- The last bound part of a node. -/
theorem Follows.lastPart {logged : Logged.Bind tree.size α} {action : Bind tree.size α}
    (hSplit : (tree.node i).boundParts = done ++ c :: [])
    (h : Follows config (fun j => tree.isWithin j c = true) around receivers (tree.envAt c)
      (tree.leave (tree.envAt c) c) logged action) :
    Follows config (WithinAny [c]) around receivers (progressEnv i done)
      (progressEnv i (done ++ [c])) logged action := by
  rw [envAt_of_boundParts hSplit, ← progressEnv_append] at h
  exact h.congr fun j => by simp [WithinAny]

/-- After the last part there is nothing left to bind. -/
theorem Follows.last (value : α) :
    Follows config (WithinAny []) around receivers (progressEnv i done) (progressEnv i done)
      (Pure.pure value) (Pure.pure value) :=
  (Follows.pure value).congr fun j => ⟨fun h => h.elim, fun h => withinAny_nil j h⟩

end Parts

/-! ## Results -/

/-- The result of a node fits what has been recorded, before it is recorded itself. -/
structure IsSettled (config : Config) (w : Logged tree.size) (i : tree.Id)
    (type : Option TypeRef) : Prop where
  unvisited : ∀ v ∈ w.visits, v.node ≠ i
  recorded : IsMember i ∨ w.state.oracle.typeOf i = none ∨ w.state.oracle.typeOf i = type
  known : ∀ known, w.state.oracle.typeOf i = some known → type = none ∨ type = some known
  agrees : ∀ symbol d, w.state.oracle.symbolOf i = some symbol → tree.resolve? i = some d →
    d = i ∨ ∀ known, type = some known → w.state.oracle.typeOf d = some known
  binding : ∀ member, tree.node i = .memberBinding member →
    type = memberType config w.stack.getLast?.join member

/-- At one moment, an action goes through some nodes, and its result can be recorded for a node. -/
def Settles (config : Config) (nodes : tree.Id → Prop) (stop : Env tree.Id) (i : tree.Id)
    (w : Logged tree.size) (logged : Logged.Bind tree.size (Option TypeRef))
    (action : Bind tree.size (Option TypeRef)) : Prop :=
  HasFollowed config nodes stop w (logged.run w).2 ∧ Erases w logged action ∧
    IsSettled config (logged.run w).2 i (logged.run w).1

/-- Binding all below a node follows the environments, and its result can be recorded. -/
def InferFollows (config : Config) (i : tree.Id) (receivers : List (Option TypeRef))
    (logged : Logged.Bind tree.size (Option TypeRef)) (action : Bind tree.size (Option TypeRef)) :
    Prop :=
  ∀ w, Ready config (fun j => tree.isWithin j i = true) (tree.receiversAround i) receivers
      (tree.envAt i) w →
    Settles config (fun j => tree.isWithin j i = true) (tree.leave (tree.envAt i) i) i w logged
      action

/-- Visiting a node follows the environments, with the receivers around it on the stack. -/
def VisitFollows (config : Config) (imports : Imports) (c : tree.Id) : Prop :=
  ∀ receivers, Follows config (fun j => tree.isWithin j c = true) (tree.receiversAround c)
    receivers (tree.envAt c) (tree.leave (tree.envAt c) c) (Logged.visit tree config imports c)
    (visit tree config imports receivers c)

/-- What is known when the result of a node has been recorded and its visit has been logged. -/
def Logged.visited {n : Nat} (before after : Logged n) (i : Fin n) (type : Option TypeRef) :
    Logged n :=
  ⟨{ after.state with oracle := recorded after.state.oracle i type }, after.stack,
    ⟨i, before.frame, after.frame, type⟩ :: after.visits⟩

theorem visit_run (i : tree.Id) (w : Logged tree.size) :
    (Logged.visit tree config imports i).run w =
      (((Logged.infer tree config imports i).run w).1,
        Logged.visited w ((Logged.infer tree config imports i).run w).2 i
          ((Logged.infer tree config imports i).run w).1) := by
  rw [Logged.visit]
  generalize Logged.infer tree config imports i = logged
  let w' := (logged.run w).2
  let type := (logged.run w).1
  show (type, (⟨((record i type).run w'.state).2, w'.stack,
    (⟨i, w.frame, Logged.frame ⟨((record i type).run w'.state).2, w'.stack, w'.visits⟩, type⟩ :
      Visit tree.size) :: w'.visits⟩ : Logged tree.size)) = _
  rw [record_run]
  rfl

section Recording

variable {w w' : Logged tree.size} {type : Option TypeRef} {o : Oracle tree.size}

theorem typeOf_recorded_self (h : o.typeOf i = none ∨ o.typeOf i = type) :
    (recorded o i type).typeOf i = type := by
  rw [typeOf_recorded, if_pos rfl]
  rcases h with hNone | hSame
  · simp [hNone]
  · rw [hSame]
    cases type <;> rfl

theorem typeOf_recorded_of_ne {j : tree.Id} (hj : j ≠ i) :
    (recorded o i type).typeOf j = o.typeOf j := (typeOf_recorded ..).trans (if_neg (Ne.symm hj))

theorem Grows.recorded (h : ∀ known, o.typeOf i = some known → type = none ∨ type = some known) :
    Grows o (recorded o i type) := by
  refine ⟨fun hSymbol => (symbolOf_recorded ..).trans hSymbol, fun {j known} hKnown => ?_⟩
  by_cases hj : j = i
  · subst hj
    rw [typeOf_recorded, if_pos rfl, hKnown]
    rcases h known hKnown with rfl | rfl <;> rfl
  · exact (typeOf_recorded_of_ne hj).trans hKnown

/-- A symbol stays right when a result that agrees with it is recorded. -/
theorem IsSettled.isSymbolOf (h : IsSettled config w i type) (hSound : IsSound config w)
    {j : tree.Id} {symbol : String} (hSymbol : w.state.oracle.symbolOf j = some symbol) :
    IsSymbolOf (Binder.recorded w.state.oracle i type) j symbol := by
  have hGrows := Grows.recorded h.known
  have hRight := hSound.symbols j symbol hSymbol
  by_cases hj : j = i
  · subst hj
    obtain ⟨name, d, hSpelling, hResolve, hName, hEq, hMarked, hType⟩ := hRight
    refine ⟨name, d, hSpelling, hResolve, hName, hEq, hGrows.symbolOf hMarked, ?_⟩
    intro known hKnown
    rcases h.agrees symbol d hSymbol hResolve with rfl | hAgrees
    · exact hKnown
    · rw [typeOf_recorded, if_pos rfl] at hKnown
      cases type with
      | none => exact hGrows.typeOf (hType known (by simpa using hKnown))
      | some other => exact hGrows.typeOf (hAgrees known (by simpa using hKnown))
  · exact hRight.mono hGrows (typeOf_recorded_of_ne hj)

/-- **A visit is right** if what it does is, and if its result fits what has been recorded. -/
theorem HasFollowed.recordsVisit
    (h : HasFollowed config (fun j => tree.isWithin j i = true) env w w')
    (hSettled : IsSettled config w' i type)
    (hComputed : List.Forall₂ (Computed w.visits) (tree.receiversAround i) w.stack) :
    HasFollowed config (fun j => tree.isWithin j i = true) env w (Logged.visited w w' i type) := by
  have hHere : tree.isWithin i i = true := isWithin_self i
  have hGrows := Grows.recorded hSettled.known
  have hVisits : w.visits ⊆ (Logged.visited w w' i type).visits :=
    List.Subset.trans h.visits (List.subset_cons_self _ _)
  have hRestored : w'.frame = w.frame := by
    rw [Logged.frame, Logged.frame, h.stack, Scopes.depth, Scopes.depth, h.outer]
  exact {
    sound := {
      symbols := fun j symbol hSymbol =>
        hSettled.isSymbolOf h.sound ((symbolOf_recorded ..).symm.trans hSymbol)
      visits := by
        intro u hu
        rcases List.mem_cons.1 hu with rfl | hu
        · exact {
            restored := hRestored
            stack := forall₂_computed_mono hVisits hComputed
            recorded := hSettled.recorded.imp id typeOf_recorded_self
            binding := fun member hNode => by
              have hBinding := hSettled.binding member hNode
              rw [h.stack] at hBinding
              exact hBinding }
        · exact (h.sound.visits u hu).mono (List.subset_cons_self _ _)
            (typeOf_recorded_of_ne (hSettled.unvisited u hu)) }
    grows := h.grows.trans hGrows
    symbolOf := fun j hj => (symbolOf_recorded ..).trans (h.symbolOf j hj)
    typeOf := fun j hj => by
      have hNe : j ≠ i := by
        rintro rfl
        exact hj hHere
      exact (typeOf_recorded_of_ne hNe).trans (h.typeOf j hj)
    outer := h.outer
    tracks := h.tracks.grow hGrows
    stack := h.stack
    visits := hVisits
    visited := by
      intro u hu
      rcases List.mem_cons.1 hu with rfl | hu
      · exact .inr hHere
      · exact h.visited u hu
    bound := fun hProgram j member hj hReads =>
      (symbolOf_recorded ..).trans (h.bound hProgram j member hj hReads) }

end Recording

/-- **A visit** records the result and is logged. -/
theorem visitFollows_of_inferFollows (h : ∀ receivers, InferFollows config i receivers
      (Logged.infer tree config imports i) (infer tree config imports receivers i)) :
    VisitFollows config imports i := by
  intro receivers w hReady
  obtain ⟨hFollowed, ⟨hResult, hState⟩, hSettled⟩ := h receivers w hReady
  have hRun : ((visit tree config imports receivers i).run w.state) =
      (((infer tree config imports receivers i).run w.state).1,
        ((record i ((infer tree config imports receivers i).run w.state).1).run
          ((infer tree config imports receivers i).run w.state).2).2) := by
    rw [visit]
    rfl
  unfold Erases
  rw [visit_run, hRun, record_run, ← hResult, ← hState]
  exact ⟨hFollowed.recordsVisit hSettled hReady.computed, rfl, rfl⟩

/-! ## Nodes that declare nothing and stand for nothing -/

section Plain

variable {α : Type} {nodes : tree.Id → Prop} {parts : List tree.Id}
  {logged : Logged.Bind tree.size (Option TypeRef)} {action : Bind tree.size (Option TypeRef)}

/-- What goes through nodes below a node leaves the node itself as it was. -/
theorem InferFollows.of_follows
    (h : Follows config nodes (tree.receiversAround i) receivers (tree.envAt i)
      (tree.leave (tree.envAt i) i) logged action)
    (hSub : ∀ j, nodes j → tree.isWithin j i = true) (hSelf : ¬ nodes i)
    (hRest : tree.IsProgram → ∀ j member, tree.isWithin j i = true → ¬ nodes j →
      ¬ ReadsField j member)
    (hBinding : ∀ member, tree.node i ≠ .memberBinding member)
    (hType : (tree.node i).declaredType? = none ∨ ∀ w, (logged.run w).1 = none) :
    InferFollows config i receivers logged action := by
  intro w hReady
  obtain ⟨h', hErases⟩ := h w (hReady.mono hSub)
  have hUnbound := hReady.unbound i (isWithin_self i)
  refine ⟨h'.widen hSub hRest, hErases, ?_⟩
  exact {
    unvisited := fun v hv hNode => by
      rcases h'.visited v hv with hv | hv
      · exact hReady.unvisited v hv (hNode ▸ isWithin_self i)
      · exact hSelf (hNode ▸ hv)
    recorded := by
      rw [h'.typeOf i hSelf]
      cases hKnown : w.state.oracle.typeOf i with
      | none => exact .inr (.inl rfl)
      | some known => exact .inl (hUnbound.typeOf known hKnown).1
    known := fun known hKnown => by
      rw [h'.typeOf i hSelf] at hKnown
      have hDeclared := (hUnbound.typeOf known hKnown).2
      rcases hType with hNone | hNone
      · simp [hNone] at hDeclared
      · exact .inl (hNone w)
    agrees := fun symbol d hSymbol hResolve => by
      rw [h'.symbolOf i hSelf] at hSymbol
      obtain ⟨-, name, hName, -⟩ := hUnbound.symbolOf symbol hSymbol
      exact .inl (Option.some.inj (hResolve.symm.trans (resolve?_of_declaredName? hName).1))
    binding := fun member hNode => absurd hNode (hBinding member) }

theorem boundParts_of_isOpen (h : isOpen (tree.node i) = true) :
    (tree.node i).boundParts = (tree.node i).children := by
  cases hNode : tree.node i <;> simp_all [isOpen, Node.boundParts]

theorem leave_envAt_of_isOpen (h : isOpen (tree.node i) = true) :
    tree.leave (tree.envAt i) i = progressEnv i (tree.node i).boundParts :=
  (leave_envAt i).trans (close_of_isOpen h _ _)

/-- A node is not within one of its parts. -/
theorem not_isWithin_part (hc : c ∈ (tree.node i).children) : ¬ tree.isWithin i c = true :=
  fun hWithin => Nat.lt_irrefl _ (depth_lt_of_isWithin_part hc hWithin)

theorem not_withinAny_self (hParts : parts ⊆ (tree.node i).children) : ¬ WithinAny parts i := by
  rintro ⟨c, hc, hWithin⟩
  exact not_isWithin_part (hParts hc) hWithin

theorem isWithin_of_withinAny (hParts : parts ⊆ (tree.node i).children) {j : tree.Id}
    (h : WithinAny parts j) : tree.isWithin j i = true := by
  obtain ⟨c, hc, hWithin⟩ := h
  exact isWithin_of_part hWithin (hParts hc)

/-- What goes through all parts of a node goes through the node. -/
theorem InferFollows.of_parts (hChildren : (tree.node i).children = parts)
    (hAccess : (tree.node i).kind ≠ .memberAccess) (hBinding : (tree.node i).kind ≠ .memberBinding)
    (hType : (tree.node i).declaredType? = none ∨ ∀ w, (logged.run w).1 = none)
    (h : Follows config (WithinAny parts) (tree.receiversAround i) receivers (tree.envAt i)
      (tree.leave (tree.envAt i) i) logged action) :
    InferFollows config i receivers logged action := by
  subst hChildren
  have hSub := List.Subset.refl (tree.node i).children
  refine InferFollows.of_follows h (fun j => isWithin_of_withinAny hSub) (not_withinAny_self hSub)
    ?_ ?_ hType
  · intro _ j member hj hNot
    rcases isWithin_iff_part.1 hj with rfl | hPart
    · exact not_readsField_of_kind hAccess member
    · exact absurd hPart hNot
  · intro member hNode
    exact hBinding (by rw [hNode]; rfl)

/-- A node that declares nothing and stands for nothing. -/
def isBare {ι : Type} : Node ι → Bool
  | .memberAccess .. => false
  | .memberBinding .. => false
  | node => isOpen node

theorem isOpen_of_isBare (h : isBare (tree.node i) = true) : isOpen (tree.node i) = true := by
  cases hNode : tree.node i <;> simp_all [isBare, isOpen]

/-- **A plain node** is bound part by part. -/
theorem InferFollows.plain (hBare : isBare (tree.node i) = true)
    (hParts : (tree.node i).boundParts = parts)
    (h : Follows config (WithinAny parts) (tree.receiversAround i) receivers (progressEnv i [])
      (progressEnv i parts) logged action) : InferFollows config i receivers logged action := by
  have hOpen := isOpen_of_isBare hBare
  subst hParts
  rw [progressEnv_nil_of_isOpen hOpen, ← leave_envAt_of_isOpen hOpen] at h
  refine InferFollows.of_parts (boundParts_of_isOpen hOpen).symm ?_ ?_ (.inl ?_) h
  all_goals cases hNode : tree.node i <;> simp_all [isBare, isOpen, Node.kind, Node.declaredType?]

/-- A plain node without parts. -/
theorem InferFollows.leaf (hBare : isBare (tree.node i) = true)
    (hParts : (tree.node i).boundParts = []) (type : Option TypeRef) :
    InferFollows config i receivers (Pure.pure type) (Pure.pure type) :=
  InferFollows.plain hBare hParts (Follows.last type)

/-- A member binding reads the last receiver on the stack. -/
theorem InferFollows.memberBinding {member : String} (hNode : tree.node i = .memberBinding member) :
    InferFollows config i receivers
      (do return memberType config (← get).stack.getLast?.join member)
      (Pure.pure (memberType config receivers.head?.join member)) := by
  intro w hReady
  have hUnbound := (hReady.unbound i (isWithin_self i)).of_not_declares (by rw [hNode]; rfl)
  have hOpen : isOpen (tree.node i) = true := by rw [hNode]; rfl
  have hLeave : tree.leave (tree.envAt i) i = tree.envAt i := by
    rw [leave_of_isOpen hOpen, hNode]
    rfl
  have hAlone : ∀ j, tree.isWithin j i = true → j = i := by
    intro j hj
    rcases isWithin_iff_part.1 hj with rfl | ⟨c, hc, -⟩
    · rfl
    · simp [hNode, Node.children] at hc
  refine ⟨?_, ⟨?_, rfl⟩, ?_⟩
  · rw [hLeave]
    refine (HasFollowed.refl hReady.sound hReady.tracks).widen (fun _ h => h.elim) ?_
    intro _ j other hj _
    rw [hAlone j hj]
    exact not_readsField_of_kind (by rw [hNode]; simp [Node.kind]) other
  · show memberType config w.stack.getLast?.join member =
      memberType config receivers.head?.join member
    rw [hReady.stack, List.getLast?_reverse]
  · exact {
      unvisited := fun v hv hEq => hReady.unvisited v hv (hEq ▸ isWithin_self i)
      recorded := .inr (.inl hUnbound.2)
      known := fun known hKnown => absurd (hUnbound.2.symm.trans hKnown) (by simp)
      agrees := fun symbol d hSymbol => absurd (hUnbound.1.symm.trans hSymbol) (by simp)
      binding := fun other hOther => by
        obtain rfl := Node.memberBinding.inj (hNode.symm.trans hOther)
        rfl }

end Plain

end StateGuard.Binder
