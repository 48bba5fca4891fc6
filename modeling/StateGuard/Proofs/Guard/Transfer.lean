import StateGuard.Proofs.Guard.Likeness

/-!
# Corresponding units

Units correspond when their trees do and their oracles say the same about a node and its counterpart.
Then conditions say the same as well.  The second unit may be judged by a configuration that trusts
more: it has the same families and the same meaning of names, and at least the same entries in the
tables of what protects a read.

## Main results

* `Config.TrustsMore.callbackState`: a callback that is known to run in one state is still known to.
* `Transfer.sameLocation_map`: two places are the same exactly if their counterparts are.
* `Transfer.shape_map`, `Transfer.establishes_map`: a condition and its counterpart have the same shape
  and establish the same.
-/

namespace StateGuard

/-! ## Trusting more -/

/-- A configuration that gives types the same meaning and trusts at least as much: guards reach as
far, and the tables of what protects a read, or of rules to leave out, have at least the same
entries. -/
structure Config.TrustsMore (c d : Config) : Prop extends c.TypesLike d where
  okCombinators : c.callContexts.okCombinators ⊆ d.callContexts.okCombinators
  notOkCombinators : c.callContexts.notOkCombinators ⊆ d.callContexts.notOkCombinators
  filterMethods : c.pipeline.filterMethods ⊆ d.pipeline.filterMethods
  passthroughMethods : c.pipeline.passthroughMethods ⊆ d.pipeline.passthroughMethods
  nonThrowingFactories : c.nonThrowingFactories ⊆ d.nonThrowingFactories
  disabledRules : c.disabledRules ⊆ d.disabledRules
  crossLambdaBoundaries : c.analysis.crossLambdaBoundaries = true →
    d.analysis.crossLambdaBoundaries = true

namespace Config

theorem TrustsMore.refl (c : Config) : c.TrustsMore c where
  toTypesLike := .refl c
  okCombinators := List.Subset.refl _
  notOkCombinators := List.Subset.refl _
  filterMethods := List.Subset.refl _
  passthroughMethods := List.Subset.refl _
  nonThrowingFactories := List.Subset.refl _
  disabledRules := List.Subset.refl _
  crossLambdaBoundaries := id

theorem contains_of_subset {names others : List String} (h : names ⊆ others) {name : String}
    (hName : names.contains name = true) : others.contains name = true :=
  List.contains_iff_mem.2 (h (List.contains_iff_mem.1 hName))

/-- No method of an accepted configuration calls back in both states. -/
theorem not_mem_notOkCombinators {c : Config} (h : c.error? = none) {method : String}
    (hOk : method ∈ c.callContexts.okCombinators) : method ∉ c.callContexts.notOkCombinators := by
  intro hNotOk
  have hContexts : c.callContexts.error? = none := by
    simp only [Config.error?, List.findSome?_eq_none_iff] at h
    exact h c.callContexts.error? (by simp)
  have hConflict : conflict? "ok_combinators" c.callContexts.okCombinators "not_ok_combinators"
      c.callContexts.notOkCombinators = none := by
    simp only [CallContexts.error?, List.findSome?_eq_none_iff] at hContexts
    exact hContexts (conflict? ..) List.mem_cons_self
  simp only [conflict?, Option.map_eq_none_iff, List.find?_eq_none] at hConflict
  exact hConflict method hOk (List.contains_iff_mem.2 hNotOk)

section TrustsMore

variable {c d : Config} (h : c.TrustsMore d)

include h

/-- A callback that is known to run in one state is still known to, since an accepted configuration
does not contradict itself. -/
theorem TrustsMore.callbackState (hAccepted : d.error? = none) {method : String}
    {name : Option String} {position : Nat} {state : State}
    (hState : c.callContexts.callbackState? method name position = some state) :
    d.callContexts.callbackState? method name position = some state := by
  unfold CallContexts.callbackState? CallContexts.isDispatch at hState ⊢
  rw [h.dispatchMethods, h.dispatchState]
  split at hState
  · next hDispatch =>
      rw [if_pos hDispatch]
      exact hState
  · next hDispatch =>
      rw [if_neg hDispatch]
      unfold CallContexts.combinatorState? at hState ⊢
      split at hState
      · next hOk =>
          rw [if_pos (contains_of_subset h.okCombinators hOk)]
          exact hState
      · split at hState
        · next hNotOk =>
            have hMem := contains_of_subset h.notOkCombinators hNotOk
            have hAbsent : d.callContexts.okCombinators.contains method ≠ true := by
              intro hOk
              exact not_mem_notOkCombinators hAccepted (List.contains_iff_mem.1 hOk)
                (List.contains_iff_mem.1 hMem)
            rw [if_neg hAbsent, if_pos hMem]
            exact hState
        · simp at hState

end TrustsMore

end Config

namespace Context

open Arena

/-- A correspondence between units: their trees correspond, nodes and their counterparts have the
same types and stand for the same declarations, and the second unit is judged by a configuration that
trusts at least as much. -/
structure Transfer (A B : Context) extends Embedding A.tree.toArena B.tree.toArena where
  typeOf_map : ∀ {i}, kept i = true → B.oracle.typeOf (map i) = A.oracle.typeOf i
  sameSymbol_map : ∀ {i j}, kept i = true → kept j = true →
    B.oracle.sameSymbol (map i) (map j) = A.oracle.sameSymbol i j
  trusts : A.config.TrustsMore B.config
  accepted : B.config.error? = none

namespace Transfer

variable {A B : Context} (t : Transfer A B) {i j : A.Id}

/-- The counterpart of a call. -/
def call (call : A.MemberCall) : B.MemberCall :=
  ⟨t.map call.invocation, t.map call.receiver, call.method, call.args.map (·.map t.map)⟩

/-- The counterpart of a read. -/
def site (site : A.UseSite) : B.UseSite :=
  ⟨t.map site.node, site.member, t.map site.receiver, site.family, site.required⟩

/-! ## Types and places -/

include t in
theorem role_map (family : Nat) (member : String) :
    B.config.role? family member = A.config.role? family member :=
  t.trusts.role family member

/-- Expressions of the first unit look like their counterparts. -/
def likeness : Likeness A B where
  map := t.map
  covers := t.Whole
  typesLike := t.trusts.toTypesLike
  covers_stripParens h := h.stripParens
  covers_part h hPart := h.stripParens.part hPart
  stripParens_map := Embedding.stripParens_map
  node_map h := h.stripParens.node
  typeOf_map h := t.typeOf_map h.kept
  sameSymbol_map hi hj := t.sameSymbol_map hi.stripParens.kept hj.stripParens.kept
  rest_map h hNode := (h.stripParens.part (by simp [hNode, Node.children])).node
  isOutVariable_map {i callee args} h hNode arg hArg := by
    have hPart : arg.value ∈ (A.tree.node (A.tree.stripParens i)).children := by
      rw [hNode]
      exact List.mem_cons_of_mem _ (List.mem_map_of_mem hArg)
    unfold isOutVariable
    rw [(h.stripParens.part hPart).node]
    cases A.tree.node arg.value <;> simp

theorem classify_map (hi : t.kept i = true) :
    B.answer (B.classify (t.map i)) = A.answer (A.classify i) :=
  t.likeness.classify_map (t.typeOf_map hi)

theorem wrapperFamily_map (h : t.Whole i) :
    B.answer (B.wrapperFamily? (t.map i)) = A.answer (A.wrapperFamily? i) :=
  t.likeness.wrapperFamily_map h

theorem sameLocation_map (hi : t.Whole i) (hj : t.Whole j) :
    B.sameLocation (t.map i) (t.map j) = A.sameLocation i j :=
  t.likeness.sameLocation_map hi hj

/-! ## Calls -/

theorem memberCall_map (hi : t.kept i = true) :
    B.memberCall? (t.map i) = (A.memberCall? i).map t.call := by
  refine t.likeness.memberCall_map (t.node_map hi) fun callee args hNode => ?_
  have hInner : (A.tree.node i).kind.isInner = true := by rw [hNode]; rfl
  exact (Embedding.whole_of_kept hi hInner).part (by simp [hNode, Node.children])

/-- The receiver of a call and its arguments have counterparts. -/
theorem whole_of_memberCall (hi : t.kept i = true) {call : A.MemberCall}
    (h : A.memberCall? i = some call) :
    t.Whole call.receiver ∧ ∀ arg ∈ call.args, t.Whole arg.value := by
  obtain ⟨callee, hNode, hWithin⟩ := isWithin_callee_of_memberCall h
  have hInner : (A.tree.node i).kind.isInner = true := by rw [hNode]; rfl
  have hWhole := Embedding.whole_of_kept hi hInner
  constructor
  · exact (hWhole.part (by simp [hNode, Node.children])).of_isWithin hWithin
  · intro arg hArg
    refine hWhole.part ?_
    rw [hNode]
    exact List.mem_cons_of_mem _ (List.mem_map_of_mem hArg)

theorem callTaking_map {lambda : A.Id} (h : t.kept lambda = true) :
    B.callTaking? (t.map lambda) =
      (A.callTaking? lambda).map (Prod.map t.call (Prod.map (·.map t.map) id)) := by
  have hParent' := t.parent_map h
  cases hParent : A.tree.parent lambda with
  | none => simp [callTaking?, hParent, hParent']
  | some p =>
      rw [hParent] at hParent'
      have hp := t.kept_parent h hParent
      refine t.likeness.callTaking_map hParent hParent' (t.memberCall_map hp) ?_
      intro call hCall arg hArg
      exact t.map_eq_iff ((t.whole_of_memberCall hp hCall).2 arg hArg).kept h

/-! ## Conditions -/

/-- **A condition and its counterpart have the same shape.** -/
theorem shape_map (h : t.Whole i) :
    B.answer (B.shape (t.map i)) = (A.answer (A.shape i)).map t.map :=
  t.likeness.shape_map h

/-- What a condition establishes about a subject, its counterpart does about the subject's. -/
theorem establishes_map {s : A.Id} {b : Bool} {P : State} (h : t.Whole i)
    (hEstablishes : Establishes i b s P) : Establishes (t.map i) b (t.map s) P := by
  rw [← proves_shape_iff] at hEstablishes ⊢
  rw [t.shape_map h]
  exact hEstablishes.map t.map

end Transfer

end Context

end StateGuard
