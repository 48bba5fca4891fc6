import StateGuard.Proofs.Analysis.Findings
import StateGuard.Proofs.Guard.Protection

/-!
# Reports about corresponding units

What a rule finds at the counterpart of a node it also finds at the node itself, with the same
arguments, as long as the configuration trusts at least as much there.  So the findings about
counterparts are some of the findings about the nodes, and in the same order if the places of the two
trees are ordered alike.

## Main results

* `Transfer.inspect_map`: what a rule finds at the counterpart of a node.
* `Transfer.orderedFindings_map`: the findings of whole units, in the order of reports.
-/

namespace StateGuard

/-- A configuration that trusts more leaves out at least the same rules. -/
theorem Config.TrustsMore.rules_sublist {c d : Config} (h : c.TrustsMore d) :
    d.rules.Sublist c.rules := by
  apply List.monotone_filter_right
  intro rule hEnabled
  simp only [isRuleEnabled, Bool.not_eq_true', List.any_eq_false] at hEnabled ⊢
  intro code hCode
  exact hEnabled code (h.disabledRules hCode)

namespace Context

open Arena

/-! ## What makes a rule report a node -/

section Reported

variable {ctx : Context} {i : ctx.Id} {d : Diagnostic}

/-- The rule about single reads reports a read that is neither exempt nor guarded. -/
theorem directAccess_eq_some_iff : ctx.answer (ctx.directAccess? i) = some d ↔
    ∃ site family, ctx.answer (ctx.useSite? i) = some site ∧ ctx.isExempt site = false ∧
      ctx.answer (isGuardedForAccess site) = false ∧
      ctx.config.families[site.family]? = some family ∧
      d = ctx.report .directAccess i
        [site.member, ctx.tree.render site.receiver, family.discriminant site.required] := by
  simp only [directAccess?, Inquiry.answer_bind]
  cases hSite : ctx.answer (ctx.useSite? i) with
  | none => simp [hSite]
  | some site =>
      simp only [hSite, Option.some.injEq, exists_and_left, exists_eq_left']
      cases ctx.isExempt site with
      | true => simp
      | false =>
          cases hGuarded : ctx.answer (isGuardedForAccess site) with
          | true => simp [hGuarded]
          | false => simp [hGuarded, Option.map_eq_some_iff, eq_comm (a := d)]

/-- The rule about projections reports a read of an element that is not guarded, if the elements are
not filtered. -/
theorem projectionAccess_eq_some_iff : ctx.answer (ctx.projectionAccess? i) = some d ↔
    ∃ site call lambda family, ctx.answer (ctx.useSite? i) = some site ∧
      ctx.projection? site.receiver = some (call, lambda) ∧
      ctx.answer (isGuardedForAccess site) = false ∧
      ctx.answer (ctx.isFiltered call.receiver site.required) = false ∧
      ctx.config.families[site.family]? = some family ∧
      d = ctx.report .projection i
        [site.member, ctx.tree.render site.receiver, call.method,
         family.discriminant site.required] := by
  simp only [projectionAccess?, Inquiry.answer_bind]
  cases hSite : ctx.answer (ctx.useSite? i) with
  | none => simp [hSite]
  | some site =>
      cases hProjection : ctx.projection? site.receiver with
      | none => simp [hSite, hProjection]
      | some found =>
          obtain ⟨call, lambda⟩ := found
          cases hGuarded : ctx.answer (isGuardedForAccess site) with
          | true => simp [hSite, hProjection, hGuarded]
          | false =>
              cases hFiltered : ctx.answer (ctx.isFiltered call.receiver site.required) with
              | true => simp [hSite, hProjection, hGuarded, hFiltered]
              | false =>
                  simp [hSite, hProjection, hGuarded, hFiltered, Option.map_eq_some_iff,
                    eq_comm (a := d)]

end Reported

/-- Rules look at nodes inside members only. -/
theorem isInner_of_inspects {rule : Rule} {kind : NodeKind} (h : rule.inspects kind = true) :
    kind.isInner = true := by
  cases rule <;> cases kind <;> first | rfl | simp [Rule.inspects, Rule.kinds] at h

/-! ## Sublists -/

section Sublists

variable {α β : Type} {l : List α}

theorem filterMap_sublist_of_mem {f g : α → Option β}
    (h : ∀ a ∈ l, ∀ b, f a = some b → g a = some b) : (l.filterMap f).Sublist (l.filterMap g) := by
  induction l with
  | nil => exact List.Sublist.refl _
  | cons a l ih =>
      have hRest := ih fun b hb => h b (List.mem_cons_of_mem a hb)
      rw [List.filterMap_cons, List.filterMap_cons]
      cases hHere : f a with
      | none =>
          cases g a with
          | none => exact hRest
          | some b => exact hRest.cons b
      | some b =>
          rw [h a List.mem_cons_self b hHere]
          exact hRest.cons_cons b

theorem flatMap_sublist_of_mem {f g : α → List β} (h : ∀ a ∈ l, (f a).Sublist (g a)) :
    (l.flatMap f).Sublist (l.flatMap g) := by
  induction l with
  | nil => exact List.Sublist.refl _
  | cons a l ih =>
      rw [List.flatMap_cons, List.flatMap_cons]
      exact (h a List.mem_cons_self).append (ih fun b hb => h b (List.mem_cons_of_mem a hb))

end Sublists

namespace Transfer

variable {A B : Context} (t : Transfer A B) {i j : A.Id}

/-! ## Rules at a node and at its counterpart -/

include t in
theorem family_map (index : Nat) : B.config.families[index]? = A.config.families[index]? := by
  rw [t.trusts.families]

theorem isExempt_of_map {site : A.UseSite} (h : t.Whole site.receiver)
    (hExempt : B.isExempt (t.site site) = false) : A.isExempt site = false := by
  unfold isExempt at hExempt ⊢
  rw [Bool.or_eq_false_iff] at hExempt ⊢
  constructor
  · rw [← Bool.not_eq_true]
    intro hFactory
    have hKept := t.isFactoryCall_map h hFactory
    exact absurd (hExempt.1.symm.trans hKept) (by simp)
  · have hProjection : (B.projection? (t.map site.receiver)).isSome = false := hExempt.2
    rw [t.projection_map h, Option.isSome_map] at hProjection
    exact hProjection

theorem isGuarded_of_map {site : A.UseSite} (hSite : t.kept site.node = true)
    (h : t.Whole site.receiver) (hGuarded : B.answer (isGuardedForAccess (t.site site)) = false) :
    A.answer (isGuardedForAccess site) = false := by
  rw [← Bool.not_eq_true]
  intro hHere
  exact absurd (hGuarded.symm.trans (t.isGuarded_map hSite h hHere)) (by simp)

/-- The read at the counterpart of a node is the counterpart of the read. -/
theorem exists_site_of_map (hi : t.kept i = true) {site' : B.UseSite}
    (h : B.answer (B.useSite? (t.map i)) = some site') :
    ∃ site, A.answer (A.useSite? i) = some site ∧ site' = t.site site ∧
      t.kept site.node = true ∧ t.Whole site.receiver := by
  rw [t.useSite_map hi] at h
  obtain ⟨site, hSite, rfl⟩ := Option.map_eq_some_iff.1 h
  obtain ⟨rfl, hRead, -⟩ := useSite_eq_some_iff.1 hSite
  exact ⟨site, hSite, rfl, hi, t.whole_of_readMember hi hRead⟩

theorem directAccess_map (hi : t.kept i = true) {d : Diagnostic}
    (h : B.answer (B.directAccess? (t.map i)) = some d) :
    ∃ arguments, d = B.report .directAccess (t.map i) arguments ∧
      A.answer (A.directAccess? i) = some (A.report .directAccess i arguments) := by
  obtain ⟨site', family, hSite', hExempt, hGuarded, hFamily, rfl⟩ := directAccess_eq_some_iff.1 h
  obtain ⟨site, hSite, rfl, hNode, hReceiver⟩ := t.exists_site_of_map hi hSite'
  refine ⟨_, rfl, directAccess_eq_some_iff.2 ⟨site, family, hSite, t.isExempt_of_map hReceiver hExempt,
    t.isGuarded_of_map hNode hReceiver hGuarded, t.family_map _ ▸ hFamily, ?_⟩⟩
  rw [show B.tree.render (t.site site).receiver = A.tree.render site.receiver from
    Embedding.render_map hReceiver]
  rfl

theorem projectionAccess_map (hi : t.kept i = true) {d : Diagnostic}
    (h : B.answer (B.projectionAccess? (t.map i)) = some d) :
    ∃ arguments, d = B.report .projection (t.map i) arguments ∧
      A.answer (A.projectionAccess? i) = some (A.report .projection i arguments) := by
  obtain ⟨site', call', lambda', family, hSite', hProjection', hGuarded, hFiltered, hFamily, rfl⟩ :=
    projectionAccess_eq_some_iff.1 h
  obtain ⟨site, hSite, rfl, hNode, hReceiver⟩ := t.exists_site_of_map hi hSite'
  have hMap : B.projection? (t.map site.receiver) = some (call', lambda') := hProjection'
  rw [t.projection_map hReceiver] at hMap
  obtain ⟨⟨call, lambda⟩, hProjection, hEq⟩ := Option.map_eq_some_iff.1 hMap
  obtain ⟨rfl, rfl⟩ := Prod.mk.inj hEq
  have hUnfiltered : A.answer (A.isFiltered call.receiver site.required) = false := by
    rw [← Bool.not_eq_true]
    intro hHere
    have hThere := t.isFiltered_map (t.whole_of_projection hReceiver hProjection) hHere
    exact absurd (hFiltered.symm.trans hThere) (by simp)
  refine ⟨_, rfl, projectionAccess_eq_some_iff.2 ⟨site, call, lambda, family, hSite, hProjection,
    t.isGuarded_of_map hNode hReceiver hGuarded, hUnfiltered, t.family_map _ ▸ hFamily, ?_⟩⟩
  rw [show B.tree.render (t.site site).receiver = A.tree.render site.receiver from
    Embedding.render_map hReceiver]
  rfl

theorem isNull_map (h : t.Whole i) : B.isNull (t.map i) = A.isNull i := by
  unfold isNull
  rw [Embedding.node_stripParens_map h]
  cases A.tree.node (A.tree.stripParens i) with
  | literal value => cases value <;> rfl
  | _ => simp

theorem otherThanNull_map (hi : t.Whole i) (hj : t.Whole j) :
    B.otherThanNull? (t.map i) (t.map j) = (A.otherThanNull? i j).map t.map := by
  unfold otherThanNull?
  rw [t.isNull_map hi, t.isNull_map hj]
  cases A.isNull i <;> cases A.isNull j <;> rfl

theorem nullTest_map (h : t.Whole i) :
    B.nullTest? (t.map i) = (A.nullTest? i).map (Prod.map t.map id) := by
  unfold nullTest?
  rw [h.node]
  cases hNode : A.tree.node i with
  | binary op left right =>
      have hLeft : t.Whole left := h.part (by simp [hNode, Node.children])
      have hRight : t.Whole right := h.part (by simp [hNode, Node.children])
      rw [Node.map_binary]
      cases op with
      | eq =>
          simp only [t.otherThanNull_map hLeft hRight, Option.map_map]
          rfl
      | notEq =>
          simp only [t.otherThanNull_map hLeft hRight, Option.map_map]
          rfl
      | _ => rfl
  | isPattern operand pattern =>
      rw [Node.map_isPattern]
      cases pattern <;> rfl
  | _ => simp

/-- What is compared with null is a part of the comparison. -/
theorem mem_children_of_nullTest {ctx : Context} {i operand : ctx.Id} {state : State}
    (h : ctx.nullTest? i = some (operand, state)) : operand ∈ (ctx.tree.node i).children := by
  have hSide : ∀ {left right other : ctx.Id}, ctx.otherThanNull? left right = some other →
      other = left ∨ other = right := by
    intro left right other hOther
    unfold otherThanNull? at hOther
    split at hOther
    · exact .inl (Option.some.inj hOther).symm
    · exact .inr (Option.some.inj hOther).symm
    · simp at hOther
  unfold nullTest? at h
  split at h
  · next hNode =>
      obtain ⟨other, hOther, hEq⟩ := Option.map_eq_some_iff.1 h
      obtain ⟨rfl, -⟩ := Prod.mk.inj hEq
      rcases hSide hOther with rfl | rfl <;> simp [hNode, Node.children]
  · next hNode =>
      obtain ⟨other, hOther, hEq⟩ := Option.map_eq_some_iff.1 h
      obtain ⟨rfl, -⟩ := Prod.mk.inj hEq
      rcases hSide hOther with rfl | rfl <;> simp [hNode, Node.children]
  · next hNode =>
      obtain ⟨rfl, -⟩ := Prod.mk.inj (Option.some.inj h)
      simp [hNode, Node.children]
  · next hNode =>
      obtain ⟨rfl, -⟩ := Prod.mk.inj (Option.some.inj h)
      simp [hNode, Node.children]
  · simp at h

theorem nullComparison_map (h : t.Whole i) : B.answer (B.nullComparison? (t.map i)) =
    (A.answer (A.nullComparison? i)).map fun d =>
      B.report .nullComparison (t.map i) d.arguments := by
  unfold nullComparison?
  rw [t.nullTest_map h]
  cases hTest : A.nullTest? i with
  | none => rfl
  | some test =>
      have hOperand : t.Whole test.1 := h.part (mem_children_of_nullTest hTest)
      simp only [Option.map_some, Prod.map, id, Inquiry.answer_bind,
        Embedding.stripParens_map hOperand, t.classify_map hOperand.stripParens.kept,
        Embedding.render_map h, Context.answer]
      cases ((A.classify (A.tree.stripParens test.1)).answer A.config.classify).wrapper? with
      | none => rfl
      | some index =>
          dsimp only
          rw [t.family_map]
          cases A.config.families[index]? with
          | none => rfl
          | some family => rfl

theorem okBranch_map {ι κ : Type} (f : ι → κ) (shape : Shape ι) :
    okBranch? (shape.map f) = okBranch? shape := by
  unfold okBranch?
  rw [Shape.facts_map, List.find?_map, Option.map_map]
  rfl

theorem ternaryParts_map (shape : Shape A.Id) (whenTrue whenFalse : A.Id) :
    B.ternaryParts? (shape.map t.map) (t.map whenTrue) (t.map whenFalse) =
      (A.ternaryParts? shape whenTrue whenFalse).map
        (Prod.map t.map (Prod.map t.map t.map)) := by
  unfold ternaryParts?
  rw [Shape.subject?_map, okBranch_map]
  cases shape.subject? with
  | none => rfl
  | some subject =>
      cases okBranch? shape with
      | none => rfl
      | some branch => cases branch <;> rfl

/-- The subject of a spelled-out default lies in its condition, and its values are the two others. -/
theorem isWithin_of_ternaryParts {ctx : Context} {condition whenTrue whenFalse : ctx.Id}
    {subject payload fallback : ctx.Id}
    (h : ctx.ternaryParts? (ctx.answer (ctx.shape condition)) whenTrue whenFalse =
      some (subject, payload, fallback)) :
    ctx.tree.isWithin subject condition = true ∧ (payload = whenTrue ∨ payload = whenFalse) ∧
      (fallback = whenTrue ∨ fallback = whenFalse) := by
  simp only [ternaryParts?, Option.bind_eq_bind, Option.bind_eq_some_iff] at h
  obtain ⟨subject', hSubject, branch, hBranch, hEq⟩ := h
  have hSingle : ∃ state truth,
      (ctx.answer (ctx.shape condition)).single? = some (subject', state, truth) := by
    cases hShape : ctx.answer (ctx.shape condition) <;>
      simp_all [Shape.subject?, Shape.single?]
  obtain ⟨state, truth, hSingle⟩ := hSingle
  have hWithin := (single_shape_iff.1 hSingle).isWithin
  cases branch with
  | whenTrue =>
      obtain ⟨rfl, rfl, rfl⟩ : subject' = subject ∧ whenTrue = payload ∧ whenFalse = fallback := by
        simpa using hEq
      exact ⟨hWithin, .inl rfl, .inr rfl⟩
  | whenFalse =>
      obtain ⟨rfl, rfl, rfl⟩ : subject' = subject ∧ whenFalse = payload ∧ whenTrue = fallback := by
        simpa using hEq
      exact ⟨hWithin, .inr rfl, .inl rfl⟩

theorem ternary_map (h : t.Whole i) : B.answer (B.ternary? (t.map i)) =
    (A.answer (A.ternary? i)).map fun d => B.report .ternary (t.map i) d.arguments := by
  unfold ternary?
  rw [h.node]
  cases hNode : A.tree.node i with
  | conditional condition whenTrue whenFalse =>
      have hCondition : t.Whole condition := h.part (by simp [hNode, Node.children])
      have hTrue : t.Whole whenTrue := h.part (by simp [hNode, Node.children])
      have hFalse : t.Whole whenFalse := h.part (by simp [hNode, Node.children])
      simp only [Node.map_conditional, Inquiry.answer_bind, t.shape_map hCondition,
        t.ternaryParts_map]
      cases hParts : A.ternaryParts? (A.answer (A.shape condition)) whenTrue whenFalse with
      | none => simp
      | some parts =>
          obtain ⟨subject, payload, fallback⟩ := parts
          obtain ⟨hSubject, hPayload, hFallback⟩ := isWithin_of_ternaryParts hParts
          have hSubject : t.Whole subject := hCondition.of_isWithin hSubject
          have hPayload : t.Whole payload := by rcases hPayload with rfl | rfl <;> assumption
          have hFallback : t.Whole fallback := by rcases hFallback with rfl | rfl <;> assumption
          simp only [Option.map_some, Prod.map, Embedding.node_stripParens_map hPayload]
          cases hRead : A.tree.node (A.tree.stripParens payload) with
          | memberAccess receiver member =>
              have hReceiver : t.Whole receiver :=
                hPayload.stripParens.part (by simp [hRead, Node.children])
              simp only [Node.map_memberAccess, Inquiry.answer_bind,
                t.wrapperFamily_map hSubject, t.family_map, t.sameLocation_map hReceiver hSubject,
                Embedding.render_map h, Embedding.render_map hSubject,
                Embedding.render_map hFallback, Context.answer]
              cases (A.wrapperFamily? subject).answer A.config.classify with
              | none => rfl
              | some index =>
                  dsimp only
                  cases A.config.families[index]? with
                  | none => rfl
                  | some family =>
                      dsimp only
                      split
                      · rfl
                      · rfl
          | _ => simp
  | _ => simp

/-- **What a rule finds at the counterpart of a node** it finds at the node, with the same
arguments. -/
theorem inspect_map {rule : Rule} (hi : t.kept i = true)
    (hKind : rule.inspects (A.tree.node i).kind = true) {d : Diagnostic}
    (h : B.answer (rule.inspect B (t.map i)) = some d) :
    ∃ arguments, d = B.report rule (t.map i) arguments ∧
      A.answer (rule.inspect A i) = some (A.report rule i arguments) := by
  have hWhole : t.Whole i := Embedding.whole_of_kept hi (isInner_of_inspects hKind)
  cases rule with
  | directAccess => exact t.directAccess_map hi h
  | projection => exact t.projectionAccess_map hi h
  | ternary =>
      have hMap : B.answer (B.ternary? (t.map i)) = some d := h
      rw [t.ternary_map hWhole] at hMap
      obtain ⟨d', hFound, rfl⟩ := Option.map_eq_some_iff.1 hMap
      obtain ⟨arguments, rfl⟩ := exists_report_of_inspect
        (show A.answer (Rule.ternary.inspect A i) = some d' from hFound)
      exact ⟨arguments, rfl, hFound⟩
  | nullComparison =>
      have hMap : B.answer (B.nullComparison? (t.map i)) = some d := h
      rw [t.nullComparison_map hWhole] at hMap
      obtain ⟨d', hFound, rfl⟩ := Option.map_eq_some_iff.1 hMap
      obtain ⟨arguments, rfl⟩ := exists_report_of_inspect
        (show A.answer (Rule.nullComparison.inspect A i) = some d' from hFound)
      exact ⟨arguments, rfl, hFound⟩

/-! ## Findings of whole units -/

/-- The counterpart of a finding. -/
def move (finding : Finding A.Id) : Finding B.Id :=
  ⟨finding.rule, t.map finding.node, finding.arguments⟩

theorem findingsAt_map (hi : t.kept i = true) :
    (B.findingsAt B.config.rules (t.map i)).Sublist
      ((A.findingsAt A.config.rules i).map t.move) := by
  have hKind : (B.tree.node (t.map i)).kind = (A.tree.node i).kind := by
    rw [t.node_map hi, Node.kind_map]
  unfold findingsAt
  rw [hKind, List.map_filterMap]
  refine (filterMap_sublist_of_mem ?_).trans
    ((t.trusts.rules_sublist.filter _).filterMap _)
  intro rule hRule finding hFinding
  obtain ⟨d, hFound, rfl⟩ := Option.map_eq_some_iff.1 hFinding
  obtain ⟨arguments, rfl, hHere⟩ := t.inspect_map hi (List.mem_filter.1 hRule).2 hFound
  simp [hHere, move, report]

theorem findings_map : ((B.findings B.config.rules).filter fun f => t.image f.node).Sublist
    (((A.findings A.config.rules).filter fun f => t.kept f.node).map t.move) := by
  rw [filter_findings, filter_findings, t.filter_preorder, List.flatMap_map, List.map_flatMap]
  apply flatMap_sublist_of_mem
  intro i hi
  exact t.findingsAt_map (List.mem_filter.1 hi).2

/-- **The findings about counterparts are some of the findings about nodes,** in the same order, if the
places of the two trees order them alike. -/
theorem orderedFindings_map
    (hOrder : ∀ f ∈ A.findings A.config.rules, ∀ g ∈ A.findings A.config.rules,
      t.kept f.node = true → t.kept g.node = true →
        (A.diagnostic f).le (A.diagnostic g) = true →
          (B.diagnostic (t.move f)).le (B.diagnostic (t.move g)) = true) :
    ((B.orderedFindings B.config.rules).filter fun f => t.image f.node).Sublist
      (((A.orderedFindings A.config.rules).filter fun f => t.kept f.node).map t.move) := by
  have hLeft : ((B.orderedFindings B.config.rules).filter fun f => t.image f.node).Perm
      ((B.findings B.config.rules).filter fun f => t.image f.node) :=
    (List.mergeSort_perm _ _).filter _
  have hRight : (((A.orderedFindings A.config.rules).filter fun f => t.kept f.node).map t.move).Perm
      (((A.findings A.config.rules).filter fun f => t.kept f.node).map t.move) :=
    ((List.mergeSort_perm _ _).filter _).map _
  have hSorted : (((A.orderedFindings A.config.rules).filter fun f => t.kept f.node).map
      t.move).Pairwise fun f g => (B.diagnostic f).le (B.diagnostic g) = true := by
    rw [List.pairwise_map]
    refine (pairwise_orderedFindings.filter _).imp_of_mem fun {f g} hf hg hLe => ?_
    obtain ⟨hf, hKeptF⟩ := List.mem_filter.1 hf
    obtain ⟨hg, hKeptG⟩ := List.mem_filter.1 hg
    exact hOrder f (mem_orderedFindings_iff.1 hf) g (mem_orderedFindings_iff.1 hg) hKeptF hKeptG hLe
  -- the two lists are sorted, and one has only elements of the other
  obtain ⟨middle, hPerm, hSublist⟩ :=
    (hLeft.subperm.trans t.findings_map.subperm).trans hRight.symm.subperm
  have hMiddle := hSorted.sublist hSublist
  have hSame : middle = (B.orderedFindings B.config.rules).filter fun f => t.image f.node := by
    refine hPerm.eq_of_pairwise ?_ hMiddle (pairwise_orderedFindings.filter _)
    intro f g hf hg hfg hgf
    have hMem : ∀ {f}, f ∈ (B.orderedFindings B.config.rules).filter (fun f => t.image f.node) →
        f ∈ B.findings B.config.rules := fun h =>
      mem_orderedFindings_iff.1 (List.mem_filter.1 h).1
    exact eq_of_le_of_le (hMem (hPerm.subset hf)) (hMem hg) hfg hgf
  rw [← hSame]
  exact hSublist

/-- What diagnostics say of a finding and of its counterpart is the same, so what the report says about
counterparts is part of what it says about nodes. -/
theorem contents_map {γ : Type} (content : Diagnostic → γ)
    (hContent : ∀ f, content (B.diagnostic (t.move f)) = content (A.diagnostic f))
    (hOrder : ∀ f ∈ A.findings A.config.rules, ∀ g ∈ A.findings A.config.rules,
      t.kept f.node = true → t.kept g.node = true →
        (A.diagnostic f).le (A.diagnostic g) = true →
          (B.diagnostic (t.move f)).le (B.diagnostic (t.move g)) = true) :
    (((B.orderedFindings B.config.rules).filter fun f => t.image f.node).map
        fun f => content (B.diagnostic f)).Sublist
      (((A.orderedFindings A.config.rules).filter fun f => t.kept f.node).map
        fun f => content (A.diagnostic f)) := by
  have hSublist := (t.orderedFindings_map hOrder).map fun f => content (B.diagnostic f)
  rw [List.map_map] at hSublist
  have hSame : (fun f => content (B.diagnostic f)) ∘ t.move = fun f => content (A.diagnostic f) :=
    funext hContent
  rwa [hSame] at hSublist

/-- The same for units in which every node has a counterpart and is one. -/
theorem contents_map_of_total {γ : Type} (content : Diagnostic → γ)
    (hKept : ∀ i, t.kept i = true) (hImage : ∀ k, t.image k = true)
    (hContent : ∀ f, content (B.diagnostic (t.move f)) = content (A.diagnostic f))
    (hOrder : ∀ f ∈ A.findings A.config.rules, ∀ g ∈ A.findings A.config.rules,
      (A.diagnostic f).le (A.diagnostic g) = true →
        (B.diagnostic (t.move f)).le (B.diagnostic (t.move g)) = true) :
    ((B.orderedFindings B.config.rules).map fun f => content (B.diagnostic f)).Sublist
      ((A.orderedFindings A.config.rules).map fun f => content (A.diagnostic f)) := by
  have hSublist := t.contents_map content hContent fun f hf g hg _ _ => hOrder f hf g hg
  rwa [List.filter_eq_self.2 fun f _ => hImage f.node,
    List.filter_eq_self.2 fun f _ => hKept f.node] at hSublist

end Transfer

end Context

end StateGuard
