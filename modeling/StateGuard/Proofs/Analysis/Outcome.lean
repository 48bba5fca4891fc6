import Mathlib.Data.List.Basic
import StateGuard.Analysis.Run
import StateGuard.Proofs.Guard.UseSite

/-!
# One outcome for each payload read

Two rules share the payload reads of a tree: reads of the elements of a projection belong to one of
them, all others to the other.  Each has exemptions of its own, and they are asked in different
orders.  Here a read is followed from the node to the sorted report, so that no read can fall between
the rules and none can be reported by both.

## Main results

* `answer_sweep`: an undisturbed run finds, node by node, what the rules find there.
* `Context.payload_findings_of_exposed`, `Context.payload_findings_of_not_exposed`: what the two
  rules find at one node.
* `Analyzer.one_outcome_for_each_read`: the same for the report of a whole unit.
-/

namespace StateGuard

/-! ## From nodes to reports -/

namespace Context

variable (ctx : Context)

/-- What a list of rules finds at a node. -/
def found (rules : List Rule) (i : ctx.Id) : List Diagnostic :=
  rules.flatMap fun rule => (ctx.answer (rule.inspect ctx i)).toList

/-- What those rules of a list find at a node that look at nodes of its kind. -/
def foundAt (rules : List Rule) (i : ctx.Id) : List Diagnostic :=
  ctx.found (Rule.subscribed rules (ctx.tree.node i).kind) i

variable {ctx}

theorem answer_inspectNode (rules : List Rule) (i : ctx.Id) :
    ctx.answer (inspectNode ctx i rules) = ctx.found rules i := by
  induction rules with
  | nil => rfl
  | cons rule rest ih =>
      simp only [inspectNode, Inquiry.answer_bind, Inquiry.answer_pure, ih]
      rfl

/-- A run that is not cancelled finds at each node what the rules find there. -/
theorem answer_sweep (rules : List Rule) (asked : Nat) (nodes : List ctx.Id) :
    ∃ candidates, ctx.answer (sweep ctx rules .never asked nodes) =
      .ok ⟨candidates, nodes.flatMap (ctx.foundAt rules)⟩ := by
  induction nodes generalizing asked with
  | nil => exact ⟨0, rfl⟩
  | cons i rest ih =>
      unfold sweep
      dsimp only
      split
      · next hEmpty =>
          obtain ⟨candidates, hRest⟩ := ih asked
          refine ⟨candidates, ?_⟩
          rw [hRest, List.flatMap_cons, foundAt, List.isEmpty_iff.1 hEmpty]
          rfl
      · obtain ⟨candidates, hRest⟩ := ih (asked + 1)
        refine ⟨(Rule.subscribed rules (ctx.tree.node i).kind).length + candidates, ?_⟩
        simp only [Signal.never, Bool.false_eq_true, if_false] at hRest ⊢
        simp only [Inquiry.answer_bind, answer_inspectNode, hRest, Inquiry.answer_pure,
          List.flatMap_cons]
        rfl

/-! ## Single rules -/

/-- A node that reads no payload is of no interest to the rule about single reads. -/
theorem answer_directAccess_of_no_site {i : ctx.Id} (h : ctx.answer (ctx.useSite? i) = none) :
    ctx.answer (ctx.directAccess? i) = none := by
  simp only [directAccess?, Inquiry.answer_bind, h]
  rfl

/-- A node that reads no payload is of no interest to the rule about projections. -/
theorem answer_projectionAccess_of_no_site {i : ctx.Id} (h : ctx.answer (ctx.useSite? i) = none) :
    ctx.answer (ctx.projectionAccess? i) = none := by
  simp only [projectionAccess?, Inquiry.answer_bind, h]
  rfl

/-- The family of a use site is one of the configuration. -/
theorem exists_family_of_site {i : ctx.Id} {site : ctx.UseSite}
    (h : ctx.answer (ctx.useSite? i) = some site) :
    ∃ family, ctx.config.families[site.family]? = some family := by
  obtain ⟨-, -, -, hRole⟩ := useSite_eq_some_iff.1 h
  obtain ⟨family, hLookup, -⟩ := Option.bind_eq_some_iff.1 hRole
  exact ⟨family, hLookup⟩

/-- The rule about single reads reports a site unless it is exempt or guarded. -/
theorem answer_directAccess_of_site {i : ctx.Id} {site : ctx.UseSite}
    (h : ctx.answer (ctx.useSite? i) = some site) :
    ∃ arguments, ctx.answer (ctx.directAccess? i) =
      if ctx.isExempt site || ctx.answer (isGuardedForAccess site) then none
      else some (ctx.report .directAccess i arguments) := by
  obtain ⟨family, hFamily⟩ := exists_family_of_site h
  refine ⟨[site.member, ctx.tree.render site.receiver, family.discriminant site.required], ?_⟩
  simp only [directAccess?, Inquiry.answer_bind, h]
  by_cases hExempt : ctx.isExempt site = true
  · simp [hExempt]
  · by_cases hGuarded : ctx.answer (isGuardedForAccess site) = true
    · simp [hExempt, hGuarded]
    · simp [hExempt, hGuarded, hFamily]

/-- The rule about projections reports an element of an unfiltered projection unless the read is
guarded. -/
theorem answer_projectionAccess_of_site {i : ctx.Id} {site : ctx.UseSite}
    (h : ctx.answer (ctx.useSite? i) = some site) :
    ∃ arguments, ctx.answer (ctx.projectionAccess? i) =
      match ctx.projection? site.receiver with
      | none => none
      | some (call, _) =>
        if ctx.answer (isGuardedForAccess site) ||
            ctx.answer (ctx.isFiltered call.receiver site.required) then none
        else some (ctx.report .projection i arguments) := by
  obtain ⟨family, hFamily⟩ := exists_family_of_site h
  simp only [projectionAccess?, Inquiry.answer_bind, h]
  cases hProjection : ctx.projection? site.receiver with
  | none => exact ⟨[], rfl⟩
  | some found =>
      obtain ⟨call, lambda⟩ := found
      refine ⟨[site.member, ctx.tree.render site.receiver, call.method,
        family.discriminant site.required], ?_⟩
      by_cases hGuarded : ctx.answer (isGuardedForAccess site) = true
      · simp [hGuarded]
      · by_cases hFiltered : ctx.answer (ctx.isFiltered call.receiver site.required) = true
        · simp [hGuarded, hFiltered]
        · simp [hGuarded, hFiltered, hFamily]

theorem answer_directAccess_of_guarded {i : ctx.Id} {site : ctx.UseSite}
    (h : ctx.answer (ctx.useSite? i) = some site)
    (hGuarded : ctx.answer (isGuardedForAccess site) = true) :
    ctx.answer (ctx.directAccess? i) = none := by
  obtain ⟨arguments, hFound⟩ := answer_directAccess_of_site h
  rw [hFound, if_pos (by simp [hGuarded])]

theorem answer_projectionAccess_of_guarded {i : ctx.Id} {site : ctx.UseSite}
    (h : ctx.answer (ctx.useSite? i) = some site)
    (hGuarded : ctx.answer (isGuardedForAccess site) = true) :
    ctx.answer (ctx.projectionAccess? i) = none := by
  obtain ⟨arguments, hFound⟩ := answer_projectionAccess_of_site h
  rw [hFound]
  split
  · rfl
  · exact if_pos (by simp [hGuarded])

/-- What a conditional expression is reported for. -/
theorem exists_parts_of_ternary {i : ctx.Id} {d : Diagnostic}
    (h : ctx.answer (ctx.ternary? i) = some d) :
    ∃ condition whenTrue whenFalse s payload fallback receiver member index family,
      ctx.tree.node i = .conditional condition whenTrue whenFalse ∧
      ctx.ternaryParts? (ctx.answer (ctx.shape condition)) whenTrue whenFalse =
        some (s, payload, fallback) ∧
      ctx.tree.node (ctx.tree.stripParens payload) = .memberAccess receiver member ∧
      ctx.answer (ctx.wrapperFamily? s) = some index ∧
      ctx.config.families[index]? = some family ∧ family.payload? .ok = some member ∧
      ctx.sameLocation receiver s = true ∧
      d = ctx.report .ternary i
        [ctx.tree.render i, ctx.tree.render s, ctx.tree.render fallback] := by
  unfold ternary? at h
  split at h
  · next condition whenTrue whenFalse hNode =>
      simp only [Inquiry.answer_bind] at h
      split at h
      · simp at h
      · next s payload fallback hParts =>
          split at h
          · next receiver member hPayload =>
              simp only [Inquiry.answer_bind] at h
              split at h
              · simp at h
              · next index hIndex =>
                  split at h
                  · simp at h
                  · next family hFamily =>
                      split at h
                      · next hBoth =>
                          obtain ⟨hMember, hSame⟩ := Bool.and_eq_true_iff.1 hBoth
                          exact ⟨condition, whenTrue, whenFalse, s, payload, fallback, receiver,
                            member, index, family, hNode, hParts, hPayload, hIndex, hFamily,
                            of_decide_eq_true hMember, hSame, (Option.some.inj h).symm⟩
                      · simp at h
          · simp at h
  · simp at h

private theorem exists_report_of_nullComparison {i : ctx.Id} {d : Diagnostic}
    (h : ctx.answer (ctx.nullComparison? i) = some d) :
    ∃ arguments, d = ctx.report .nullComparison i arguments := by
  unfold nullComparison? at h
  split at h
  · simp at h
  · simp only [Inquiry.answer_bind] at h
    split at h
    · simp at h
    · obtain ⟨family, _, hReport⟩ := Option.map_eq_some_iff.1 h
      exact ⟨_, hReport.symm⟩

/-- **A finding names its rule and its place.** What a rule finds at a node carries that rule, the
file of the tree, and the number and span of the node. -/
theorem exists_report_of_inspect {rule : Rule} {i : ctx.Id} {d : Diagnostic}
    (h : ctx.answer (rule.inspect ctx i) = some d) :
    ∃ arguments, d = ctx.report rule i arguments := by
  cases rule with
  | ternary =>
      obtain ⟨_, _, _, _, _, _, _, _, _, _, _, _, _, _, _, _, _, hReport⟩ :=
        exists_parts_of_ternary h
      exact ⟨_, hReport⟩
  | nullComparison => exact exists_report_of_nullComparison h
  | directAccess =>
      cases hSite : ctx.answer (ctx.useSite? i) with
      | none =>
          have hNone := answer_directAccess_of_no_site hSite
          exact absurd (h.symm.trans hNone) (by simp)
      | some site =>
          obtain ⟨arguments, hFound⟩ := answer_directAccess_of_site hSite
          refine ⟨arguments, ?_⟩
          have hEq := h.symm.trans hFound
          split at hEq
          · simp at hEq
          · exact Option.some.inj hEq
  | projection =>
      cases hSite : ctx.answer (ctx.useSite? i) with
      | none =>
          have hNone := answer_projectionAccess_of_no_site hSite
          exact absurd (h.symm.trans hNone) (by simp)
      | some site =>
          obtain ⟨arguments, hFound⟩ := answer_projectionAccess_of_site hSite
          refine ⟨arguments, ?_⟩
          have hEq := h.symm.trans hFound
          split at hEq
          · simp at hEq
          · split at hEq
            · simp at hEq
            · exact Option.some.inj hEq

/-- What is found at a node comes from a rule that looks at nodes of its kind. -/
theorem exists_rule_of_mem_foundAt {rules : List Rule} {i : ctx.Id} {d : Diagnostic}
    (h : d ∈ ctx.foundAt rules i) :
    ∃ rule arguments, rule.inspects (ctx.tree.node i).kind = true ∧
      d = ctx.report rule i arguments := by
  obtain ⟨rule, hRule, hMem⟩ := List.mem_flatMap.1 h
  obtain ⟨arguments, hReport⟩ := exists_report_of_inspect (Option.mem_toList.1 hMem)
  exact ⟨rule, arguments, (List.mem_filter.1 hRule).2, hReport⟩

/-! ## The two rules about payload reads -/

/-- Only member accesses and member bindings read payloads. -/
theorem kind_of_site {i : ctx.Id} {site : ctx.UseSite}
    (h : ctx.answer (ctx.useSite? i) = some site) :
    (ctx.tree.node i).kind = .memberAccess ∨ (ctx.tree.node i).kind = .memberBinding := by
  obtain ⟨-, hRead, -⟩ := useSite_eq_some_iff.1 h
  unfold readMember? at hRead
  split at hRead
  · next hNode => exact .inl (by rw [hNode]; rfl)
  · next hNode => exact .inr (by rw [hNode]; rfl)
  · simp at hRead

end Context

/-- A finding of one of the two rules about payload reads. -/
def Diagnostic.isPayloadFinding (d : Diagnostic) : Bool := d.code = "GRD001" || d.code = "GRD003"

theorem Diagnostic.isPayloadFinding_iff (d : Diagnostic) :
    d.isPayloadFinding = true ↔ d.rule = .directAccess ∨ d.rule = .projection := by
  unfold isPayloadFinding code
  cases d.rule <;> simp [Rule.code]

namespace Context

variable {ctx : Context}

/-- The payload findings at a node are those of the two rules, in this order. -/
theorem filter_foundAt (i : ctx.Id) :
    (ctx.foundAt Rule.all i).filter Diagnostic.isPayloadFinding =
      (ctx.answer (ctx.directAccess? i)).toList ++ (ctx.answer (ctx.projectionAccess? i)).toList := by
  by_cases hKind : (ctx.tree.node i).kind = .memberAccess ∨ (ctx.tree.node i).kind = .memberBinding
  · have hRules : Rule.subscribed Rule.all (ctx.tree.node i).kind = [.directAccess, .projection] := by
      rcases hKind with hKind | hKind
      · rw [hKind]
        rfl
      · rw [hKind]
        rfl
    have hAll : ∀ d ∈ ctx.foundAt Rule.all i, d.isPayloadFinding = true := by
      intro d hd
      obtain ⟨rule, hRule, hMem⟩ := List.mem_flatMap.1 hd
      obtain ⟨arguments, rfl⟩ := exists_report_of_inspect (Option.mem_toList.1 hMem)
      rw [hRules] at hRule
      rw [Diagnostic.isPayloadFinding_iff]
      simpa [report] using hRule
    rw [List.filter_eq_self.2 hAll, foundAt, hRules]
    simp [found, Rule.inspect]
  · have hNoSite : ctx.answer (ctx.useSite? i) = none := by
      cases hSite : ctx.answer (ctx.useSite? i) with
      | none => rfl
      | some site => exact absurd (kind_of_site hSite) hKind
    rw [answer_directAccess_of_no_site hNoSite, answer_projectionAccess_of_no_site hNoSite]
    rw [Option.toList_none, List.append_nil, List.filter_eq_nil_iff]
    intro d hd
    obtain ⟨rule, arguments, hInspects, rfl⟩ := exists_rule_of_mem_foundAt hd
    rw [Diagnostic.isPayloadFinding_iff]
    -- neither of the two rules looks at a node of another kind
    rintro (hRule | hRule) <;>
      · obtain rfl := hRule
        simp only [Rule.inspects, Rule.kinds, List.contains_cons, List.contains_nil,
          Bool.or_false, Bool.or_eq_true, beq_iff_eq] at hInspects
        exact hKind hInspects

/-- A payload read in the tree that nothing protects: it is not guarded, its receiver does not come
from a factory that cannot fail, and it is not an element of a projection that has been filtered for
the required state. -/
structure Exposed (ctx : Context) (i : ctx.Id) (site : ctx.UseSite) : Prop where
  mem_preorder : i ∈ ctx.tree.preorder
  read : ctx.answer (ctx.useSite? i) = some site
  unguarded : ctx.answer (isGuardedForAccess site) = false
  not_factory : ctx.isFactoryCall site.receiver = false
  unfiltered : ∀ call lambda, ctx.projection? site.receiver = some (call, lambda) →
    ctx.answer (ctx.isFiltered call.receiver site.required) = false

/-- The element of a projection is a name, so it is never the result of a factory. -/
theorem isFactoryCall_of_projection {i : ctx.Id} {found : ctx.MemberCall × ctx.Id}
    (h : ctx.projection? i = some found) : ctx.isFactoryCall i = false := by
  have hName : ∃ name, ctx.tree.node (ctx.tree.stripParens i) = .identifier name := by
    unfold projection? at h
    split at h
    · next hParameter =>
        unfold lambdaParameter? at hParameter
        split at hParameter
        · next name hNode => exact ⟨name, hNode⟩
        · simp at hParameter
    · simp at h
  obtain ⟨name, hNode⟩ := hName
  simp [isFactoryCall, memberCall?, hNode]

/-- **One rule reports a read that nothing protects:** the one about projections if the receiver is
an element of one, otherwise the other. -/
theorem payload_findings_of_exposed {i : ctx.Id} {site : ctx.UseSite} (h : ctx.Exposed i site) :
    ∃ rule arguments,
      (ctx.foundAt Rule.all i).filter Diagnostic.isPayloadFinding = [ctx.report rule i arguments] ∧
      (rule = .directAccess ∨ rule = .projection) ∧
      (rule = .projection ↔ (ctx.projection? site.receiver).isSome = true) := by
  obtain ⟨direct, hDirect⟩ := answer_directAccess_of_site h.read
  obtain ⟨projected, hProjected⟩ := answer_projectionAccess_of_site h.read
  rw [filter_foundAt, hDirect, hProjected]
  cases hProjection : ctx.projection? site.receiver with
  | none =>
      refine ⟨.directAccess, direct, ?_, .inl rfl, by simp⟩
      simp [isExempt, h.not_factory, hProjection, h.unguarded]
  | some found =>
      obtain ⟨call, lambda⟩ := found
      refine ⟨.projection, projected, ?_, .inr rfl, by simp⟩
      simp [isExempt, hProjection, h.unguarded, h.unfiltered call lambda hProjection]

/-- **No rule reports anything else.** -/
theorem payload_findings_of_not_exposed {i : ctx.Id} (hMem : i ∈ ctx.tree.preorder)
    (h : ∀ site, ¬ ctx.Exposed i site) :
    (ctx.foundAt Rule.all i).filter Diagnostic.isPayloadFinding = [] := by
  rw [filter_foundAt]
  cases hSite : ctx.answer (ctx.useSite? i) with
  | none =>
      rw [answer_directAccess_of_no_site hSite, answer_projectionAccess_of_no_site hSite]
      rfl
  | some site =>
      by_cases hGuarded : ctx.answer (isGuardedForAccess site) = true
      · rw [answer_directAccess_of_guarded hSite hGuarded,
          answer_projectionAccess_of_guarded hSite hGuarded]
        rfl
      · obtain ⟨direct, hDirect⟩ := answer_directAccess_of_site hSite
        obtain ⟨projected, hProjected⟩ := answer_projectionAccess_of_site hSite
        rw [hDirect, hProjected]
        cases hProjection : ctx.projection? site.receiver with
        | none =>
            have hFactory : ctx.isFactoryCall site.receiver = true := by
              by_contra hNot
              exact h site ⟨hMem, hSite, by simpa using hGuarded, by simpa using hNot,
                by simp [hProjection]⟩
            simp [isExempt, hFactory]
        | some found =>
            obtain ⟨call, lambda⟩ := found
            have hFiltered : ctx.answer (ctx.isFiltered call.receiver site.required) = true := by
              by_contra hNot
              refine h site ⟨hMem, hSite, by simpa using hGuarded,
                isFactoryCall_of_projection hProjection, ?_⟩
              intro call' lambda' hProjection'
              rw [hProjection] at hProjection'
              obtain ⟨rfl, rfl⟩ := Prod.mk.inj (Option.some.inj hProjection')
              simpa using hNot
            simp [isExempt, hProjection, hFiltered]

end Context

/-! ## The report of a unit -/

/-- The payload findings of a report at the node with a number. -/
def Report.payloadFindings (report : Report) (node : Nat) : List Diagnostic :=
  report.diagnostics.filter fun d => d.node = node && d.isPayloadFinding

namespace Context

variable {ctx : Context}

/-- Nothing is found at a node that is not looked at. -/
theorem filter_flatMap_foundAt_of_not_mem (rules : List Rule) {nodes : List ctx.Id} {n : ctx.Id}
    (hn : n ∉ nodes) : (nodes.flatMap (ctx.foundAt rules)).filter
      (fun d => d.node = n.val && d.isPayloadFinding) = [] := by
  rw [List.filter_eq_nil_iff]
  intro d hd
  obtain ⟨i, hi, hFound⟩ := List.mem_flatMap.1 hd
  obtain ⟨_, _, _, rfl⟩ := exists_rule_of_mem_foundAt hFound
  have hNe : i.val ≠ n.val := by
    intro hEq
    exact hn (Fin.ext hEq ▸ hi)
  simp [Context.report, hNe]

/-- What is found in a list of different nodes at one of them. -/
theorem filter_flatMap_foundAt_of_mem (rules : List Rule) {nodes : List ctx.Id}
    (hNodup : nodes.Nodup) {n : ctx.Id} (hn : n ∈ nodes) :
    (nodes.flatMap (ctx.foundAt rules)).filter (fun d => d.node = n.val && d.isPayloadFinding) =
      (ctx.foundAt rules n).filter Diagnostic.isPayloadFinding := by
  obtain ⟨earlier, later, rfl⟩ := List.append_of_mem hn
  rw [List.nodup_append, List.nodup_cons] at hNodup
  have hEarlier : n ∉ earlier := fun h => hNodup.2.2 n h n List.mem_cons_self rfl
  rw [List.flatMap_append, List.flatMap_cons, List.filter_append, List.filter_append,
    filter_flatMap_foundAt_of_not_mem rules hEarlier,
    filter_flatMap_foundAt_of_not_mem rules hNodup.2.1.1, List.nil_append, List.append_nil]
  apply List.filter_congr
  intro d hd
  obtain ⟨_, _, _, rfl⟩ := exists_rule_of_mem_foundAt hd
  simp [Context.report]

end Context

namespace Analyzer

/-- The report of a run that is not cancelled lists, in order, what the rules find at the nodes. -/
theorem run_never (analyzer : Analyzer) (unit : SourceUnit) {cache : Cache}
    (hCache : cache.IsRight analyzer.config.classify) :
    ∃ report, (analyzer.run unit .never cache).1 = .ok report ∧
      report.diagnostics.Perm (unit.tree.preorder.flatMap
        ((Context.ofUnit unit analyzer.config).foundAt analyzer.rules)) := by
  let ctx := Context.ofUnit unit analyzer.config
  obtain ⟨candidates, hSweep⟩ := ctx.answer_sweep analyzer.rules 0 ctx.tree.preorder
  let findings := ctx.tree.preorder.flatMap (ctx.foundAt analyzer.rules)
  refine ⟨(Sweep.mk candidates findings).report ctx, ?_, ?_⟩
  · unfold run
    rw [((analyze ctx analyzer.rules .never).run_of_isRight hCache).1]
    simp only [analyze, Inquiry.answer_bind, Inquiry.answer_pure]
    exact congrArg (Except.map (·.report ctx)) hSweep
  · exact List.mergeSort_perm findings Diagnostic.le

/-- **Exactly one outcome for each payload read.** With an accepted configuration that leaves out no
rule, a run that is not cancelled gives a report in which every read that nothing protects has one
finding, about the projection if its receiver is an element of one and about the single read
otherwise, and no other node has any.  Every finding carries the file of the tree and the span of
its node. -/
theorem one_outcome_for_each_read {config : Config} (hValid : config.validate = .ok config)
    (hRules : config.disabledRules = []) (unit : SourceUnit) {cache : Cache}
    (hCache : cache.IsRight config.classify) :
    ∃ analyzer report, Analyzer.ofConfig config = .ok analyzer ∧
      (analyzer.run unit .never cache).1 = .ok report ∧
      (∀ i : (Context.ofUnit unit config).Id,
        (∀ site, (Context.ofUnit unit config).Exposed i site →
          ∃ d, report.payloadFindings i = [d] ∧
            (d.code = "GRD003" ↔
              ((Context.ofUnit unit config).projection? site.receiver).isSome = true)) ∧
        ((∀ site, ¬ (Context.ofUnit unit config).Exposed i site) →
          report.payloadFindings i = [])) ∧
      ∀ d ∈ report.diagnostics, d.file = unit.tree.file ∧
        ∃ i : unit.tree.Id, d.node = i.val ∧ d.span = unit.tree.span i := by
  let ctx := Context.ofUnit unit config
  have hError : config.error? = none := by
    unfold Config.validate at hValid
    split at hValid
    · simp at hValid
    · next hNone => exact hNone
  have hAll : config.rules = Rule.all := by
    simp [Config.rules, Config.isRuleEnabled, hRules]
  have hAnalyzer : Analyzer.ofConfig config = .ok ⟨config, Rule.all⟩ := by
    simp only [ofConfig, withRules, hError, hAll]
  obtain ⟨report, hReport, hPerm⟩ := run_never ⟨config, Rule.all⟩ unit hCache
  refine ⟨_, report, hAnalyzer, hReport, ?_, ?_⟩
  · intro i
    have hFindings : (report.payloadFindings i).Perm
        ((ctx.tree.preorder.flatMap (ctx.foundAt Rule.all)).filter
          fun d => d.node = i.val && d.isPayloadFinding) := hPerm.filter _
    have hHere : i ∈ ctx.tree.preorder → (report.payloadFindings i).Perm
        ((ctx.foundAt Rule.all i).filter Diagnostic.isPayloadFinding) := by
      intro hMem
      rwa [Context.filter_flatMap_foundAt_of_mem Rule.all (Arena.nodup_preorder _) hMem] at hFindings
    constructor
    · intro site hExposed
      obtain ⟨rule, arguments, hOne, hEither, hProjection⟩ :=
        Context.payload_findings_of_exposed hExposed
      have hSingle := hHere hExposed.mem_preorder
      rw [hOne] at hSingle
      refine ⟨_, List.perm_singleton.1 hSingle, ?_⟩
      rw [← hProjection]
      rcases hEither with rfl | rfl
      · simp [Diagnostic.code, Context.report, Rule.code]
      · simp [Diagnostic.code, Context.report, Rule.code]
    · intro hNone
      by_cases hMem : i ∈ ctx.tree.preorder
      · have hNothing := hHere hMem
        rw [Context.payload_findings_of_not_exposed hMem hNone] at hNothing
        exact List.perm_nil.1 hNothing
      · rw [Context.filter_flatMap_foundAt_of_not_mem Rule.all hMem] at hFindings
        exact List.perm_nil.1 hFindings
  · intro d hd
    obtain ⟨i, _, hFound⟩ := List.mem_flatMap.1 (hPerm.subset hd)
    obtain ⟨rule, arguments, _, rfl⟩ := Context.exists_rule_of_mem_foundAt hFound
    exact ⟨rfl, i, rfl, rfl⟩

/-- A tree of one read, `r.Value`. -/
def singleRead : Tree where
  size := 2
  node i := if i = 0 then .identifier "r" else .memberAccess 0 "Value"
  root := 1
  parent i := if i = 0 then some 1 else none
  depth i := if i = 0 then 1 else 0
  parent_eq_some_iff := by decide
  children_nodup := by decide
  parent_root := by decide
  depth_of_parent := by decide
  depth_le_size := by decide
  file := "read.cs"
  span _ := ⟨.origin, .origin⟩

/-- The read `r.Value` of a result that nothing guards. -/
def unguardedRead : Context := .ofUnit
  ⟨singleRead, (Oracle.empty 2).setType 0
    (.generic "CSharpFunctionalExtensions.Result" [.named "int"])⟩ {}

theorem exposed_unguardedRead :
    unguardedRead.Exposed (1 : Fin 2) ⟨(1 : Fin 2), "Value", (0 : Fin 2), 0, .ok⟩ where
  mem_preorder := by
    have hPreorder : singleRead.preorder = [(1 : Fin 2), (0 : Fin 2)] := by cbv
    exact hPreorder ▸ List.mem_cons_self
  read := Context.useSite_eq_some_iff.2 ⟨rfl, rfl, by decide +kernel, by decide +kernel⟩
  unguarded := by decide +kernel
  not_factory := by decide +kernel
  unfiltered := by
    intro call lambda h
    have hNone : unguardedRead.projection? (0 : Fin 2) = none := by decide +kernel
    rw [hNone] at h
    simp at h

/-- The one unguarded read of the tree `r.Value` is reported once, as a single read. -/
theorem one_outcome_for_the_unguarded_read :
    (({} : Config).validate = .ok {} ∧ ({} : Config).disabledRules = []) ∧
      ∃ analyzer report, Analyzer.ofConfig {} = .ok analyzer ∧
        (analyzer.run unguardedRead.toSourceUnit .never {}).1 = .ok report ∧
        ∃ d, report.payloadFindings (1 : Fin 2) = [d] ∧ d.code ≠ "GRD003" := by
  refine ⟨⟨rfl, rfl⟩, ?_⟩
  obtain ⟨analyzer, report, hAnalyzer, hReport, hOutcome, -⟩ :=
    one_outcome_for_each_read rfl rfl unguardedRead.toSourceUnit
      (Cache.isRight_empty ({} : Config).classify)
  obtain ⟨d, hOne, hCode⟩ := (hOutcome (1 : Fin 2)).1 _ exposed_unguardedRead
  refine ⟨analyzer, report, hAnalyzer, hReport, d, hOne, ?_⟩
  rw [Ne, hCode]
  have hNone : unguardedRead.projection? (0 : Fin 2) = none := by decide +kernel
  intro hSome
  have : (unguardedRead.projection? (0 : Fin 2)).isSome = true := hSome
  simp [hNone] at this

end Analyzer

end StateGuard
