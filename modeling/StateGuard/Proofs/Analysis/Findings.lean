import Mathlib.Data.List.Sort
import Mathlib.Data.Prod.Lex
import Mathlib.Data.String.Basic
import StateGuard.Proofs.Analysis.Outcome
import StateGuard.Proofs.Source.Tokens

/-!
# Findings in the order of reports

A report lists diagnostics by file, place, code and node.  That order is linear, since it compares
keys, and a rule finds at most one thing at a node, so the report of a unit is determined by what the
rules find, whatever the order in which they look.

## Main results

* `Diagnostic.le_iff_key`: the order of reports compares keys.
* `Context.eq_of_le_of_le`: no two findings of a unit have one place in a report.
* `Analyzer.run_eq`, `Config.report_eq`: the report of an undisturbed run.
-/

namespace StateGuard

/-! ## The order of reports -/

/-- Line and column, to be compared in this order. -/
def Position.key (p : Position) : Nat ×ₗ Nat := toLex (p.line, p.column)

theorem Position.key_inj {a b : Position} : a.key = b.key ↔ a = b := by
  obtain ⟨line, column⟩ := a
  obtain ⟨line', column'⟩ := b
  simp [key]

theorem Position.le_iff_key {a b : Position} : a.le b = true ↔ a.key ≤ b.key := by
  rw [le_iff, key, key, Prod.Lex.toLex_le_toLex]

/-- Start and end, to be compared in this order. -/
def Span.key (span : Span) : (Nat ×ₗ Nat) ×ₗ (Nat ×ₗ Nat) := toLex (span.start.key, span.stop.key)

theorem Span.key_inj {a b : Span} : a.key = b.key ↔ a = b := by
  obtain ⟨start, stop⟩ := a
  obtain ⟨start', stop'⟩ := b
  simp [key, Position.key_inj]

theorem Span.le_iff_key {a b : Span} : a.le b = true ↔ a.key ≤ b.key := by
  rw [key, key, Prod.Lex.toLex_le_toLex]
  unfold le
  by_cases hStart : a.start = b.start
  · simp [hStart, Position.le_iff_key]
  · simp [hStart, Position.le_iff_key, Position.key_inj, le_iff_lt_or_eq]

namespace Rule

theorem code_injective {rule other : Rule} (h : rule.code = other.code) : rule = other := by
  cases rule <;> cases other <;> simp_all [code]

end Rule

namespace Diagnostic

/-- What the order of reports compares. -/
def key (d : Diagnostic) : String ×ₗ ((Nat ×ₗ Nat) ×ₗ (Nat ×ₗ Nat)) ×ₗ String ×ₗ Nat :=
  toLex (d.file, toLex (d.span.key, toLex (d.code, d.node)))

/-- **The order of reports compares keys.** -/
theorem le_iff_key {a b : Diagnostic} : a.le b = true ↔ a.key ≤ b.key := by
  simp only [key, Prod.Lex.toLex_le_toLex]
  unfold le
  by_cases hFile : a.file = b.file
  · by_cases hSpan : a.span = b.span
    · by_cases hCode : a.code = b.code
      · simp [hFile, hSpan, hCode]
      · simp [hFile, hSpan, hCode]
    · have hKey : a.span.key ≠ b.span.key := fun hEq => hSpan (Span.key_inj.1 hEq)
      simp [hFile, hSpan, Span.le_iff_key, hKey, le_iff_lt_or_eq]
  · simp [hFile]

theorem le_trans {a b c : Diagnostic} (hab : a.le b = true) (hbc : b.le c = true) :
    a.le c = true := by
  rw [le_iff_key] at *
  exact hab.trans hbc

theorem le_total (a b : Diagnostic) : (a.le b || b.le a) = true := by
  rw [Bool.or_eq_true, le_iff_key, le_iff_key]
  exact LinearOrder.le_total a.key b.key

/-- What a diagnostic says, apart from where. -/
def wording (d : Diagnostic) : String × Severity × String × List String :=
  (d.code, d.severity, d.message, d.arguments)

/-- Diagnostics with one place in a report are about the same rule and node. -/
theorem same_of_le_of_le {a b : Diagnostic} (hab : a.le b = true) (hba : b.le a = true) :
    a.rule = b.rule ∧ a.node = b.node := by
  rw [le_iff_key] at hab hba
  have hKey : a.key = b.key := le_antisymm hab hba
  simp only [key, toLex_inj, Prod.mk.injEq] at hKey
  exact ⟨Rule.code_injective hKey.2.2.1, hKey.2.2.2⟩

end Diagnostic

/-! ## Findings of a unit -/

/-- What a rule finds at a node. -/
structure Finding (ι : Type) where
  rule : Rule
  node : ι
  arguments : List String

namespace Context

variable (ctx : Context)

/-- The diagnostic of a finding, with its place in the text. -/
def diagnostic (finding : Finding ctx.Id) : Diagnostic :=
  ctx.report finding.rule finding.node finding.arguments

/-- What those rules of a list find at a node that look at nodes of its kind. -/
def findingsAt (rules : List Rule) (i : ctx.Id) : List (Finding ctx.Id) :=
  (Rule.subscribed rules (ctx.tree.node i).kind).filterMap fun rule =>
    (ctx.answer (rule.inspect ctx i)).map fun d => ⟨rule, i, d.arguments⟩

/-- What a list of rules finds in a unit, node by node. -/
def findings (rules : List Rule) : List (Finding ctx.Id) :=
  ctx.tree.preorder.flatMap (ctx.findingsAt rules)

/-- What a list of rules finds in a unit, in the order of reports. -/
def orderedFindings (rules : List Rule) : List (Finding ctx.Id) :=
  (ctx.findings rules).mergeSort fun f g => (ctx.diagnostic f).le (ctx.diagnostic g)

variable {ctx} {rules : List Rule}

theorem map_findingsAt (i : ctx.Id) :
    (ctx.findingsAt rules i).map ctx.diagnostic = ctx.foundAt rules i := by
  unfold findingsAt foundAt found
  induction Rule.subscribed rules (ctx.tree.node i).kind with
  | nil => rfl
  | cons rule rest ih =>
      rw [List.filterMap_cons, List.flatMap_cons, ← ih]
      cases hFound : ctx.answer (rule.inspect ctx i) with
      | none => simp
      | some d =>
          obtain ⟨arguments, rfl⟩ := exists_report_of_inspect hFound
          simp [diagnostic, report]

theorem map_findings : (ctx.findings rules).map ctx.diagnostic =
    ctx.tree.preorder.flatMap (ctx.foundAt rules) := by
  rw [findings, List.map_flatMap]
  exact List.flatMap_congr fun i _ => map_findingsAt i

/-- A finding is what its rule finds at its node. -/
theorem mem_findingsAt_iff {i : ctx.Id} {finding : Finding ctx.Id} :
    finding ∈ ctx.findingsAt rules i ↔ finding.node = i ∧ finding.rule ∈ rules ∧
      finding.rule.inspects (ctx.tree.node i).kind = true ∧
      ctx.answer (finding.rule.inspect ctx i) = some (ctx.diagnostic finding) := by
  simp only [findingsAt, List.mem_filterMap, Rule.subscribed, List.mem_filter,
    Option.map_eq_some_iff]
  constructor
  · rintro ⟨rule, ⟨hRule, hInspects⟩, d, hFound, rfl⟩
    obtain ⟨arguments, rfl⟩ := exists_report_of_inspect hFound
    exact ⟨rfl, hRule, hInspects, hFound⟩
  · rintro ⟨rfl, hRule, hInspects, hFound⟩
    exact ⟨finding.rule, ⟨hRule, hInspects⟩, ctx.diagnostic finding, hFound, rfl⟩

theorem mem_findings_iff {finding : Finding ctx.Id} :
    finding ∈ ctx.findings rules ↔ finding.node ∈ ctx.tree.preorder ∧
      finding ∈ ctx.findingsAt rules finding.node := by
  simp only [findings, List.mem_flatMap]
  constructor
  · rintro ⟨i, hi, hFound⟩
    obtain rfl := (mem_findingsAt_iff.1 hFound).1
    exact ⟨hi, hFound⟩
  · rintro ⟨hNode, hFound⟩
    exact ⟨finding.node, hNode, hFound⟩

theorem mem_orderedFindings_iff {finding : Finding ctx.Id} :
    finding ∈ ctx.orderedFindings rules ↔ finding ∈ ctx.findings rules :=
  (List.mergeSort_perm _ _).mem_iff

/-- **No two findings of a unit have one place in a report.** -/
theorem eq_of_le_of_le {f g : Finding ctx.Id} (hf : f ∈ ctx.findings rules)
    (hg : g ∈ ctx.findings rules) (hfg : (ctx.diagnostic f).le (ctx.diagnostic g) = true)
    (hgf : (ctx.diagnostic g).le (ctx.diagnostic f) = true) : f = g := by
  obtain ⟨hRule, hNode⟩ := Diagnostic.same_of_le_of_le hfg hgf
  obtain ⟨-, -, -, hFirst⟩ := mem_findingsAt_iff.1 (mem_findings_iff.1 hf).2
  obtain ⟨-, -, -, hSecond⟩ := mem_findingsAt_iff.1 (mem_findings_iff.1 hg).2
  obtain ⟨rule, i, arguments⟩ := f
  obtain ⟨rule', j, arguments'⟩ := g
  obtain rfl : rule = rule' := hRule
  obtain rfl : i = j := Fin.ext hNode
  have hSame := Option.some.inj (hFirst.symm.trans hSecond)
  simp only [diagnostic, report, Diagnostic.mk.injEq] at hSame
  rw [hSame.2.2.2.2]

theorem pairwise_orderedFindings : (ctx.orderedFindings rules).Pairwise fun f g =>
    (ctx.diagnostic f).le (ctx.diagnostic g) = true := by
  apply List.pairwise_mergeSort
  · intro f g h hfg hgh
    exact Diagnostic.le_trans hfg hgh
  · intro f g
    exact Diagnostic.le_total _ _

/-- What is found at some nodes is what is found when only these are looked at. -/
theorem filter_findings (p : ctx.Id → Bool) :
    (ctx.findings rules).filter (fun f => p f.node) =
      (ctx.tree.preorder.filter p).flatMap (ctx.findingsAt rules) := by
  unfold findings
  induction ctx.tree.preorder with
  | nil => rfl
  | cons i rest ih =>
      rw [List.flatMap_cons, List.filter_append, ih]
      cases hp : p i with
      | true =>
          have hAll : (ctx.findingsAt rules i).filter (fun f => p f.node) =
              ctx.findingsAt rules i := by
            rw [List.filter_eq_self]
            intro f hf
            rw [(mem_findingsAt_iff.1 hf).1, hp]
          rw [hAll, List.filter_cons_of_pos hp, List.flatMap_cons]
      | false =>
          have hNone : (ctx.findingsAt rules i).filter (fun f => p f.node) = [] := by
            rw [List.filter_eq_nil_iff]
            intro f hf
            simp [(mem_findingsAt_iff.1 hf).1, hp]
          rw [hNone, List.filter_cons_of_neg (by simp [hp]), List.nil_append]

/-! ## Reports -/

/-- The number of times that a rule of a list looks at a node. -/
def candidates (ctx : Context) (rules : List Rule) : Nat :=
  (ctx.tree.preorder.flatMap fun i => Rule.subscribed rules (ctx.tree.node i).kind).length

theorem candidates_of_sweep {nodes : List ctx.Id} {asked : Nat} {result : Sweep}
    (h : ctx.answer (sweep ctx rules .never asked nodes) = .ok result) : result.candidates =
      (nodes.flatMap fun i => Rule.subscribed rules (ctx.tree.node i).kind).length := by
  induction nodes generalizing asked result with
  | nil =>
      obtain rfl := Except.ok.inj h
      rfl
  | cons i rest ih =>
      unfold sweep at h
      dsimp only at h
      rw [List.flatMap_cons, List.length_append]
      split at h
      · next hEmpty =>
          rw [ih h, List.isEmpty_iff.1 hEmpty]
          simp
      · obtain ⟨count, hRest⟩ := ctx.answer_sweep rules (asked + 1) rest
        simp only [Signal.never, Bool.false_eq_true, if_false] at h hRest
        simp only [Inquiry.answer_bind, hRest, Inquiry.answer_pure] at h
        obtain rfl := Except.ok.inj h
        have hCount := ih hRest
        dsimp only at hCount ⊢
        rw [hCount]

end Context

namespace Analyzer

/-- **The report of an undisturbed run** lists what the rules find, in order, and counts the nodes, the
looks of a rule at a node and the findings. -/
theorem run_eq (analyzer : Analyzer) (unit : SourceUnit) {cache : Cache}
    (hCache : cache.IsRight analyzer.config.classify) :
    let ctx := Context.ofUnit unit analyzer.config
    (analyzer.run unit .never cache).1 = .ok
      { file := unit.tree.file
        diagnostics := (ctx.orderedFindings analyzer.rules).map ctx.diagnostic
        stats := ⟨unit.tree.preorder.length, ctx.candidates analyzer.rules,
          (ctx.findings analyzer.rules).length⟩ } := by
  intro ctx
  obtain ⟨count, hSweep⟩ := ctx.answer_sweep analyzer.rules 0 ctx.tree.preorder
  have hCount : count = ctx.candidates analyzer.rules := Context.candidates_of_sweep hSweep
  have hSorted : (ctx.orderedFindings analyzer.rules).map ctx.diagnostic =
      Diagnostic.sorted (ctx.tree.preorder.flatMap (ctx.foundAt analyzer.rules)) := by
    rw [← Context.map_findings]
    exact List.map_mergeSort fun _ _ _ _ => rfl
  have hLength : (ctx.findings analyzer.rules).length =
      (ctx.tree.preorder.flatMap (ctx.foundAt analyzer.rules)).length := by
    rw [← Context.map_findings, List.length_map]
  unfold run
  rw [((analyze ctx analyzer.rules .never).run_of_isRight hCache).1]
  simp only [analyze, Inquiry.answer_bind, Inquiry.answer_pure]
  rw [hSorted, hLength, ← hCount]
  exact congrArg (Except.map (·.report ctx)) hSweep

end Analyzer

namespace Config

/-- The report of a new analyzer about a unit, when nothing cancels the run. -/
def report (config : Config) (unit : SourceUnit) : Except Fault Report := do
  let analyzer ← Analyzer.ofConfig config
  (analyzer.run unit .never {}).1

theorem error?_of_validate {config : Config} (h : config.validate = .ok config) :
    config.error? = none := by
  unfold validate at h
  split at h
  · simp at h
  · next hNone => exact hNone

/-- The report by an accepted configuration. -/
theorem report_eq {config : Config} (h : config.validate = .ok config) (unit : SourceUnit) :
    let ctx := Context.ofUnit unit config
    config.report unit = .ok
      { file := unit.tree.file
        diagnostics := (ctx.orderedFindings config.rules).map ctx.diagnostic
        stats := ⟨unit.tree.preorder.length, ctx.candidates config.rules,
          (ctx.findings config.rules).length⟩ } := by
  have hAnalyzer : Analyzer.ofConfig config = .ok ⟨config, config.rules⟩ := by
    simp only [Analyzer.ofConfig, Analyzer.withRules, error?_of_validate h]
  unfold report
  rw [hAnalyzer]
  exact Analyzer.run_eq ⟨config, config.rules⟩ unit (Cache.isRight_empty config.classify)

end Config

end StateGuard
