import StateGuard.Analysis.Input
import StateGuard.Proofs.Analysis.Transport
import StateGuard.Proofs.Source.Programs

/-!
# Trusting more only removes findings

Six tables and a switch say what protects a read or which rules to leave out.  Whatever is added to
them, an accepted configuration finds nothing new: the text of a file is read and bound as before,
since neither the parser nor the binder looks at them, and each rule reports some of what it reported
before, in the same order and in the same words.

## Main results

* `SourceUnit.load_eq`: files are read and bound alike.
* `Config.trusting_more_only_removes_findings`: the reports about a file or a unit.
-/

namespace StateGuard

/-! ## Reading and binding -/

namespace SourceUnit

variable {c d : Config} (h : c.TypesLike d)
include h

theorem ofSource_eq (file source : String) : ofSource d file source = ofSource c file source := by
  unfold ofSource
  rw [h.imports]
  cases hTree : Tree.ofSource (Imports.ofConfig c).resolve file source with
  | error fault => rfl
  | ok tree =>
      have hBind : tree.bind d = tree.bind c :=
        Tree.bind_eq (Tree.isProgram_ofSource hTree) h tree.file tree.span
      show Except.ok (SourceUnit.mk tree (tree.bind d)) = .ok ⟨tree, tree.bind c⟩
      rw [hBind]

/-- **Files are read and bound alike.** -/
theorem load_eq (read : FileReader) (path : String) : load read d path = load read c path := by
  unfold load
  simp only [ofSource_eq h]

end SourceUnit

/-! ## Findings -/

namespace Context

/-- A unit corresponds to itself under a configuration that trusts more. -/
def Transfer.ofTrust (unit : SourceUnit) {c d : Config} (h : c.TrustsMore d)
    (hAccepted : d.error? = none) : Transfer (ofUnit unit c) (ofUnit unit d) where
  toEmbedding := .refl unit.tree.toArena
  typeOf_map _ := rfl
  sameSymbol_map _ _ := rfl
  trusts := h
  accepted := hAccepted

end Context

namespace Config

variable {c d : Config}

/-- The report about a unit by a configuration that trusts more. -/
theorem sublist_of_trustsMore (h : c.TrustsMore d) (hc : c.validate = .ok c)
    (hd : d.validate = .ok d) (unit : SourceUnit) :
    ∃ report report', c.report unit = .ok report ∧ d.report unit = .ok report' ∧
      report'.diagnostics.Sublist report.diagnostics := by
  let t := Context.Transfer.ofTrust unit h (error?_of_validate hd)
  exact ⟨_, _, report_eq hc unit, report_eq hd unit, t.contents_map_of_total id (fun _ => rfl)
    (fun _ => rfl) (fun _ => rfl) fun _ _ _ _ hLe => hLe⟩

/-- **Trusting more only removes findings.**  A file is read alike by two accepted configurations, the
second of which trusts more, and what the second reports about it is some of what the first reports,
in the same order.  The same holds of every unit, wherever it comes from. -/
theorem trusting_more_only_removes_findings (h : c.TrustsMore d) (hc : c.validate = .ok c)
    (hd : d.validate = .ok d) :
    (∀ (read : FileReader) (path : String),
      (∃ fault, SourceUnit.load read c path = .error fault ∧
        SourceUnit.load read d path = .error fault) ∨
      ∃ unit unit' report report', SourceUnit.load read c path = .ok unit ∧
        SourceUnit.load read d path = .ok unit' ∧ c.report unit = .ok report ∧
        d.report unit' = .ok report' ∧ report'.diagnostics.Sublist report.diagnostics) ∧
    ∀ unit, ∃ report report', c.report unit = .ok report ∧ d.report unit = .ok report' ∧
      report'.diagnostics.Sublist report.diagnostics := by
  have hUnit := sublist_of_trustsMore h hc hd
  refine ⟨?_, hUnit⟩
  intro read path
  have hLoad := SourceUnit.load_eq h.toTypesLike read path
  cases hFile : SourceUnit.load read c path with
  | error fault =>
      rw [hFile] at hLoad
      exact .inl ⟨fault, rfl, hLoad⟩
  | ok unit =>
      rw [hFile] at hLoad
      obtain ⟨report, report', hReport, hReport', hSublist⟩ := hUnit unit
      exact .inr ⟨unit, unit, report, report', rfl, hLoad, hReport, hReport', hSublist⟩

/-- A configuration with something added to each table, and with guards that reach through lambdas. -/
def trusting : Config where
  nonThrowingFactories := ["TryCreate", "Empty"]
  callContexts :=
    { okCombinators := "Then" :: ({} : CallContexts).okCombinators
      notOkCombinators := "OrElse" :: ({} : CallContexts).notOkCombinators }
  pipeline :=
    { filterMethods := ["Where", "TakeWhile", "Only"]
      passthroughMethods := "Shuffle" :: ({} : Pipeline).passthroughMethods }
  analysis := { crossLambdaBoundaries := true }
  disabledRules := ["grd004"]

/-- The default configuration, one that trusts more in every respect, and a text with an unguarded
read: the second configuration reports nothing about it that the first does not. -/
theorem trusting_only_removes_findings :
    (({} : Config).TrustsMore trusting ∧ ({} : Config).validate = .ok {} ∧
      trusting.validate = .ok trusting) ∧
    ∃ unit report report',
      SourceUnit.ofSource {} "f.cs" "void f(Result<int> r) \x7b g(r.Value); \x7d" = .ok unit ∧
      ({} : Config).report unit = .ok report ∧ trusting.report unit = .ok report' ∧
      report'.diagnostics.Sublist report.diagnostics := by
  have hTrusts : ({} : Config).TrustsMore trusting :=
    ⟨⟨rfl, rfl, rfl, rfl, rfl, rfl⟩, List.subset_cons_self _ _, List.subset_cons_self _ _,
      by simp [trusting], List.subset_cons_self _ _, by simp [trusting], by simp, by simp⟩
  have hDefault : ({} : Config).validate = .ok {} := rfl
  have hTrusting : trusting.validate = .ok trusting := by decide +kernel
  refine ⟨⟨hTrusts, hDefault, hTrusting⟩, ?_⟩
  have hRead : (SourceUnit.ofSource {} "f.cs"
      "void f(Result<int> r) \x7b g(r.Value); \x7d").toOption.isSome = true := by
    decide +kernel
  cases hUnit : SourceUnit.ofSource {} "f.cs" "void f(Result<int> r) \x7b g(r.Value); \x7d" with
  | error fault => simp [hUnit, Except.toOption] at hRead
  | ok unit =>
      obtain ⟨report, report', hReport, hReport', hSublist⟩ :=
        (trusting_more_only_removes_findings hTrusts hDefault hTrusting).2 unit
      exact ⟨unit, report, report', rfl, hReport, hReport', hSublist⟩

end Config

end StateGuard
