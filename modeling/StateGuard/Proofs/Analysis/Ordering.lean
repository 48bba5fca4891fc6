import Mathlib.Data.List.Perm.Basic
import Mathlib.Data.List.ProdSigma
import StateGuard.Proofs.Analysis.LeavingOut

/-!
# Reports in strict order

The nodes of a tree are visited once each, and a list of different rules asks each rule once about a
node.  So the findings of a run are all different, no two of them have one place in a report, and a
report is the one strictly increasing list of what its rules find.  Whatever does not change that
set does not change the report: neither the order of the rules, nor the rules that are not asked.

## Main results

* `Context.increasing_orderedFindings`: reports are strictly increasing.
* `Report.Lists.eq_of_perm`, `Report.Lists.diagnostics_eq_filter`: other orders and other rules.
* `Config.reports_are_ordered_and_depend_on_the_set_of_rules`: the reports of runs.
-/

namespace StateGuard

namespace Context

variable {ctx : Context} {rules : List Rule}

/-- Different rules find different things, since a finding names its rule and its node. -/
theorem nodup_findings (hRules : rules.Nodup) : (ctx.findings rules).Nodup := by
  have hAt : ∀ i, (ctx.findingsAt rules i).Nodup := by
    intro i
    refine (hRules.filter _).filterMap ?_
    intro rule rule' finding h h'
    obtain ⟨d, -, rfl⟩ := Option.map_eq_some_iff.1 h
    obtain ⟨d', -, hEq⟩ := Option.map_eq_some_iff.1 h'
    exact (Finding.mk.inj hEq).1.symm
  refine List.nodup_flatMap.2 ⟨fun i _ => hAt i, ?_⟩
  refine (Arena.nodup_preorder _).imp fun {i j} hNe => ?_
  intro finding hi hj
  exact hNe ((mem_findingsAt_iff.1 hi).1.symm.trans (mem_findingsAt_iff.1 hj).1)

/-- **A report is strictly increasing** if no rule is asked twice. -/
theorem increasing_orderedFindings (hRules : rules.Nodup) :
    ((ctx.orderedFindings rules).map ctx.diagnostic).Pairwise fun a b => a.key < b.key := by
  rw [List.pairwise_map]
  have hNodup : (ctx.orderedFindings rules).Nodup :=
    (List.mergeSort_perm _ _).nodup_iff.2 (nodup_findings hRules)
  refine (List.pairwise_and_iff.2 ⟨pairwise_orderedFindings, hNodup⟩).imp_of_mem
    fun {f g} hf hg ⟨hLe, hNe⟩ => ?_
  refine lt_of_le_of_ne (Diagnostic.le_iff_key.1 hLe) fun hEq => hNe ?_
  exact eq_of_le_of_le (mem_orderedFindings_iff.1 hf) (mem_orderedFindings_iff.1 hg) hLe
    (Diagnostic.le_iff_key.2 hEq.ge)

/-- A report has what its rules find at the nodes they look at. -/
theorem mem_diagnostics_iff {d : Diagnostic} :
    d ∈ (ctx.orderedFindings rules).map ctx.diagnostic ↔
      ∃ i ∈ ctx.tree.preorder, ∃ rule ∈ rules, rule.inspects (ctx.tree.node i).kind = true ∧
        ctx.answer (rule.inspect ctx i) = some d := by
  simp only [List.mem_map, mem_orderedFindings_iff]
  constructor
  · rintro ⟨finding, hFinding, rfl⟩
    obtain ⟨hNode, hAt⟩ := mem_findings_iff.1 hFinding
    obtain ⟨-, hRule, hKind, hFound⟩ := mem_findingsAt_iff.1 hAt
    exact ⟨finding.node, hNode, finding.rule, hRule, hKind, hFound⟩
  · rintro ⟨i, hi, rule, hRule, hKind, hFound⟩
    obtain ⟨arguments, rfl⟩ := exists_report_of_inspect hFound
    refine ⟨⟨rule, i, arguments⟩, mem_findings_iff.2 ⟨hi, ?_⟩, rfl⟩
    exact mem_findingsAt_iff.2 ⟨rfl, hRule, hKind, hFound⟩

/-- The number of looks of a rule at a node, as a number of pairs. -/
theorem candidates_eq : ctx.candidates rules =
    (ctx.tree.preorder ×ˢ rules).countP fun (i, rule) =>
      rule.inspects (ctx.tree.node i).kind := by
  unfold candidates Rule.subscribed
  induction ctx.tree.preorder with
  | nil => rfl
  | cons i rest ih =>
      rw [List.flatMap_cons, List.length_append, ih, List.product_cons, List.countP_append,
        List.countP_map, ← List.countP_eq_length_filter]
      rfl

end Context

/-- Two strictly increasing lists of diagnostics with the same elements are the same list. -/
theorem Diagnostic.eq_of_increasing {l l' : List Diagnostic}
    (h : l.Pairwise fun a b => a.key < b.key) (h' : l'.Pairwise fun a b => a.key < b.key)
    (hMem : ∀ d, d ∈ l ↔ d ∈ l') : l = l' := by
  have hNodup : ∀ {l : List Diagnostic}, (l.Pairwise fun a b => a.key < b.key) → l.Nodup :=
    fun hl => hl.imp fun hLt hEq => absurd (congrArg key hEq) hLt.ne
  refine List.Perm.eq_of_pairwise ?_ h h'
    ((List.perm_ext_iff_of_nodup (hNodup h) (hNodup h')).2 hMem)
  intro a b _ _ hab hba
  exact absurd (hab.trans hba) (lt_irrefl _)

theorem Rule.mem_all (rule : Rule) : rule ∈ all := by
  cases rule <;> decide

namespace Report

/-- The report lists what some rules find in a unit, in the strict order of reports, and counts the
nodes, the pairs of a node and a rule that looks at it, and the diagnostics. -/
structure Lists (report : Report) (ctx : Context) (rules : List Rule) : Prop where
  file : report.file = ctx.tree.file
  increasing : report.diagnostics.Pairwise fun a b => a.key < b.key
  mem_iff : ∀ d, d ∈ report.diagnostics ↔ ∃ i ∈ ctx.tree.preorder, ∃ rule ∈ rules,
    rule.inspects (ctx.tree.node i).kind = true ∧ ctx.answer (rule.inspect ctx i) = some d
  stats : report.stats = ⟨ctx.tree.preorder.length,
    (ctx.tree.preorder ×ˢ rules).countP fun (i, rule) => rule.inspects (ctx.tree.node i).kind,
    report.diagnostics.length⟩

namespace Lists

variable {ctx : Context} {rules others : List Rule} {report report' : Report}

/-- The order of the rules does not matter. -/
theorem eq_of_perm (h : report.Lists ctx rules) (h' : report'.Lists ctx others)
    (hPerm : others.Perm rules) : report' = report := by
  have hDiagnostics : report'.diagnostics = report.diagnostics := by
    refine Diagnostic.eq_of_increasing h'.increasing h.increasing fun d => ?_
    simp only [h'.mem_iff, h.mem_iff, hPerm.mem_iff]
  have hStats : report'.stats = report.stats := by
    have hPairs : (ctx.tree.preorder ×ˢ others).Perm (ctx.tree.preorder ×ˢ rules) :=
      List.Perm.product_left _ hPerm
    rw [h'.stats, h.stats, hDiagnostics, hPairs.countP_eq]
  obtain ⟨file, diagnostics, stats⟩ := report
  obtain ⟨file', diagnostics', stats'⟩ := report'
  rw [Report.mk.injEq]
  exact ⟨h'.file.trans h.file.symm, hDiagnostics, hStats⟩

/-- A report by some of the rules is that part of the report by all. -/
theorem diagnostics_eq_filter (h : report.Lists ctx rules) (h' : report'.Lists ctx others)
    {p : Rule → Bool} (hRules : ∀ rule, rule ∈ rules ↔ rule ∈ others ∧ p rule = true) :
    report.diagnostics = report'.diagnostics.filter (p ·.rule) := by
  refine Diagnostic.eq_of_increasing h.increasing (h'.increasing.filter _) fun d => ?_
  simp only [List.mem_filter, h.mem_iff, h'.mem_iff, hRules]
  constructor
  · rintro ⟨i, hi, rule, ⟨hRule, hp⟩, hKind, hFound⟩
    obtain ⟨arguments, rfl⟩ := Context.exists_report_of_inspect hFound
    exact ⟨⟨i, hi, rule, hRule, hKind, hFound⟩, hp⟩
  · rintro ⟨⟨i, hi, rule, hRule, hKind, hFound⟩, hp⟩
    obtain ⟨arguments, rfl⟩ := Context.exists_report_of_inspect hFound
    exact ⟨i, hi, rule, ⟨hRule, hp⟩, hKind, hFound⟩

end Lists

end Report

namespace Config

/-- What an undisturbed run by chosen rules reports about a unit, whatever has been classified
rightly before. -/
def Reports (config : Config) (rules : List Rule) (unit : SourceUnit) (report : Report) : Prop :=
  ∃ analyzer, Analyzer.withRules config rules = .ok analyzer ∧
    ∀ cache : Cache, cache.IsRight config.classify →
      (analyzer.run unit .never cache).1 = .ok report

/-- Every list of different rules has its report. -/
theorem exists_report {config : Config} (h : config.error? = none) {rules : List Rule}
    (hRules : rules.Nodup) (unit : SourceUnit) :
    ∃ report, config.Reports rules unit report ∧ report.Lists (.ofUnit unit config) rules := by
  refine ⟨_, ⟨⟨config, rules⟩, by simp only [Analyzer.withRules, h], fun cache hCache =>
    Analyzer.run_eq ⟨config, rules⟩ unit hCache⟩, ?_⟩
  exact {
    file := rfl
    increasing := Context.increasing_orderedFindings hRules
    mem_iff := fun d => Context.mem_diagnostics_iff
    stats := by
      simp only [Context.candidates_eq, List.length_map, Context.orderedFindings,
        List.length_mergeSort]
      rfl }

/-! ## Leaving a rule out -/

variable {config : Config}

/-- The configuration that leaves one more rule out. -/
def leavingOut (config : Config) (word : String) : Config :=
  { config with disabledRules := config.disabledRules ++ [word] }

/-- A configuration stays acceptable when a rule that exists is left out. -/
theorem error?_leavingOut (h : config.error? = none) {word : String} {rule : Rule}
    (hWord : Text.equalCaseless word rule.code = true) :
    (config.leavingOut word).error? = none := by
  have hRule : config.ruleError? = none := by
    simp only [error?, List.findSome?_eq_none_iff] at h
    exact h config.ruleError? (by simp)
  have hRule' : (config.leavingOut word).ruleError? = none := by
    simp only [ruleError?, Option.map_eq_none_iff, List.find?_eq_none, leavingOut,
      List.mem_append, List.mem_singleton] at hRule ⊢
    rintro code (hCode | rfl)
    · exact hRule code hCode
    · have hKnown : Rule.codes.any (Text.equalCaseless · code) = true := by
        refine List.any_eq_true.2 ⟨rule.code, ?_, ?_⟩
        · exact List.mem_map_of_mem (Rule.mem_all rule)
        · rw [Text.equalCaseless, beq_iff_eq] at hWord ⊢
          exact hWord.symm
      simp [hKnown]
  simp only [error?, List.findSome?_cons, hRule, hRule'] at h ⊢
  exact h

theorem isRuleEnabled_leavingOut {word : String} {rule : Rule}
    (hWord : Text.equalCaseless word rule.code = true) (other : Rule) :
    (config.leavingOut word).isRuleEnabled other.code =
      (config.isRuleEnabled other.code && other != rule) := by
  have hSame : Text.equalCaseless word other.code = (other == rule) := by
    rw [Text.equalCaseless, beq_iff_eq] at hWord
    rw [Text.equalCaseless, hWord]
    cases rule <;> cases other <;> decide
  simp [isRuleEnabled, leavingOut, hSame, Bool.not_or, bne]

theorem mem_rules_leavingOut {word : String} {rule : Rule}
    (hWord : Text.equalCaseless word rule.code = true) (other : Rule) :
    other ∈ (config.leavingOut word).rules ↔ other ∈ config.rules ∧ (other != rule) = true := by
  simp only [rules, List.mem_filter, isRuleEnabled_leavingOut hWord, Bool.and_eq_true, and_assoc]

/-- What a report lists does not depend on the rules left out. -/
theorem lists_keepingRules_iff (h : config.error? = none) {unit : SourceUnit} {rules : List Rule}
    {report : Report} : report.Lists (.ofUnit unit config) rules ↔
      report.Lists (.ofUnit unit config.keepingRules) rules := by
  have hMem : ∀ d, (∃ i ∈ unit.tree.preorder, ∃ rule ∈ rules,
        rule.inspects (unit.tree.node i).kind = true ∧
          (Context.ofUnit unit config).answer (rule.inspect (.ofUnit unit config) i) = some d) ↔
      ∃ i ∈ unit.tree.preorder, ∃ rule ∈ rules,
        rule.inspects (unit.tree.node i).kind = true ∧
          (Context.ofUnit unit config.keepingRules).answer
            (rule.inspect (.ofUnit unit config.keepingRules) i) = some d := by
    intro d
    refine exists_congr fun i => and_congr_right fun _ => exists_congr fun rule =>
      and_congr_right fun _ => and_congr_right fun hKind => ?_
    exact Context.inspect_keepingRules h hKind
  constructor
  · rintro ⟨hFile, hIncreasing, hHere, hStats⟩
    exact ⟨hFile, hIncreasing, fun d => (hHere d).trans (hMem d), hStats⟩
  · rintro ⟨hFile, hIncreasing, hHere, hStats⟩
    exact ⟨hFile, hIncreasing, fun d => (hHere d).trans (hMem d).symm, hStats⟩

theorem nodup_rules (config : Config) : config.rules.Nodup :=
  (show Rule.all.Nodup by decide).filter _

/-- **Reports are ordered, without duplicates, and independent of how the rules are listed.**  By an
accepted configuration and any list of different rules, an undisturbed run strictly orders its
diagnostics by file, span, code and node; they are what the rules find at the nodes they look at,
and are counted with the nodes and the pairs of a node and a rule that looks at it.  So the run
reports the same when the rules are listed in another order, and it reports the part about these
rules of what all rules report.  And when a code is left out, in any case, exactly the diagnostics
of that code go. -/
theorem reports_are_ordered_and_depend_on_the_set_of_rules (h : config.validate = .ok config)
    {rules : List Rule} (hRules : rules.Nodup) (unit : SourceUnit) :
    ∃ report, config.Reports rules unit report ∧ report.Lists (.ofUnit unit config) rules ∧
      (∀ others : List Rule, others.Perm rules → config.Reports others unit report) ∧
      (∃ full, config.Reports Rule.all unit full ∧ report.diagnostics =
        full.diagnostics.filter fun d => (rules.map Rule.code).contains d.code) ∧
      ∀ (rule : Rule) (word : String), Text.equalCaseless word rule.code = true →
        (config.leavingOut word).validate = .ok (config.leavingOut word) ∧
        ∃ before after, config.Reports config.rules unit before ∧
          (config.leavingOut word).Reports (config.leavingOut word).rules unit after ∧
          after.diagnostics = before.diagnostics.filter fun d => d.code != rule.code := by
  have hError := error?_of_validate h
  obtain ⟨report, hReports, hLists⟩ := exists_report hError hRules unit
  refine ⟨report, hReports, hLists, ?_, ?_, ?_⟩
  · intro others hPerm
    obtain ⟨report', hReports', hLists'⟩ := exists_report hError (hPerm.nodup_iff.2 hRules) unit
    rwa [hLists.eq_of_perm hLists' hPerm] at hReports'
  · obtain ⟨full, hFull, hAll⟩ := exists_report hError (show Rule.all.Nodup by decide) unit
    refine ⟨full, hFull, hLists.diagnostics_eq_filter hAll (p := fun rule =>
      (rules.map Rule.code).contains rule.code) fun rule => ?_⟩
    simp only [List.contains_iff_mem, Rule.mem_all, true_and]
    exact (List.mem_map_of_injective fun _ _ => Rule.code_injective).symm
  · intro rule word hWord
    have hError' := error?_leavingOut hError hWord
    obtain ⟨before, hBefore, hListed⟩ := exists_report hError (nodup_rules config) unit
    obtain ⟨after, hAfter, hListed'⟩ :=
      exists_report hError' (nodup_rules (config.leavingOut word)) unit
    refine ⟨by simp only [validate, hError'], before, after, hBefore, hAfter, ?_⟩
    have hThere : after.Lists (.ofUnit unit config) (config.leavingOut word).rules :=
      (lists_keepingRules_iff hError).2 ((lists_keepingRules_iff hError').1 hListed')
    rw [hThere.diagnostics_eq_filter hListed (mem_rules_leavingOut hWord)]
    refine List.filter_congr fun d _ => congrArg not ?_
    rw [Bool.eq_iff_iff, beq_iff_eq, beq_iff_eq]
    exact ⟨congrArg Rule.code, Rule.code_injective⟩

/-- The unguarded read of the tree `r.Value` is reported whichever of two rules is listed first, and
no longer when its code is left out in lower case. -/
theorem unguarded_read_is_reported_in_any_order :
    (({} : Config).validate = .ok {} ∧ [Rule.projection, Rule.directAccess].Nodup) ∧
      ∃ report after,
        ({} : Config).Reports [.projection, .directAccess] Analyzer.unguardedRead.toSourceUnit
          report ∧
        ({} : Config).Reports [.directAccess, .projection] Analyzer.unguardedRead.toSourceUnit
          report ∧
        (∃ d ∈ report.diagnostics, d.code = "GRD001") ∧
        (({} : Config).leavingOut "grd001").Reports (({} : Config).leavingOut "grd001").rules
          Analyzer.unguardedRead.toSourceUnit after ∧
        ∀ d ∈ after.diagnostics, d.code ≠ "GRD001" := by
  refine ⟨⟨rfl, by decide⟩, ?_⟩
  obtain ⟨report, hReports, hLists, hOrder, -, hLeft⟩ :=
    reports_are_ordered_and_depend_on_the_set_of_rules
      (show ({} : Config).validate = .ok {} from rfl)
      (show [Rule.projection, Rule.directAccess].Nodup by decide)
      Analyzer.unguardedRead.toSourceUnit
  obtain ⟨-, before, after, -, hAfter, hFilter⟩ := hLeft .directAccess "grd001" (by decide +kernel)
  refine ⟨report, after, hReports, hOrder _ (.swap ..), ?_, hAfter, ?_⟩
  · have hFound : (Analyzer.unguardedRead.answer
        (Rule.directAccess.inspect Analyzer.unguardedRead (1 : Fin 2))).isSome = true := by
      decide +kernel
    obtain ⟨d, hd⟩ := Option.isSome_iff_exists.1 hFound
    obtain ⟨arguments, rfl⟩ := Context.exists_report_of_inspect hd
    exact ⟨_, (hLists.mem_iff _).2 ⟨_, Analyzer.exposed_unguardedRead.mem_preorder, .directAccess,
      by decide, rfl, hd⟩, rfl⟩
  · intro d hd
    rw [hFilter] at hd
    exact bne_iff_ne.1 (List.mem_filter.1 hd).2

end Config

end StateGuard
