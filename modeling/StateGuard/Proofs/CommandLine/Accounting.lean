import Mathlib.Algebra.GroupWithZero.Nat
import StateGuard.CommandLine.Run
import StateGuard.Proofs.Analysis.Sharing
import StateGuard.Proofs.Analysis.Trust

/-!
# Accounting for the inputs of a check

A check ends in one of three ways: the configuration cannot be read, what the request makes of it is
not accepted, or all files are looked at.  In the last case every file is accounted for once, by a
report or by a failure, and the exit code says which was the worst that happened.

Each file contributes what it gives alone.  A batch is analysed with one cache for all units, one unit
at a time or many at the same time, and neither can be told from its report.

## Main results

* `Analyzer.runAll_eq`: a batch that nothing disturbs gives a report for each unit.
* `Analyzer.isConcurrentBatch_iff`: so does a batch on many workers.
* `Config.IsParallelTo.reportOn_eq`: whether files may be analysed at the same time is no matter of
  findings.
* `CheckRequest.check_accounts_for_every_input`: the three ends of a check.
-/

namespace StateGuard

/-! ## Batches -/

/-- What loading gives, in order: the units, and the failures. -/
theorem collect_eq {ι α : Type} (name : ι → String) (load : ι → Except Fault α) (inputs : List ι) :
    collect name load inputs =
      (inputs.filterMap fun input => (load input).toOption,
        inputs.filterMap fun input =>
          match load input with
          | .ok _ => none
          | .error fault => some ⟨name input, fault.display⟩) := by
  induction inputs with
  | nil => rfl
  | cons input rest ih =>
      cases hLoad : load input with
      | ok unit => simp [collect, ih, hLoad, Except.toOption]
      | error fault => simp [collect, ih, hLoad, Except.toOption]

namespace Analyzer

/-- The report about a unit, when nothing cancels the run. -/
def reportOn (analyzer : Analyzer) (unit : SourceUnit) : Report :=
  let ctx := Context.ofUnit unit analyzer.config
  { file := unit.tree.file
    diagnostics := (ctx.orderedFindings analyzer.rules).map ctx.diagnostic
    stats := ⟨unit.tree.preorder.length, ctx.candidates analyzer.rules,
      (ctx.findings analyzer.rules).length⟩ }

variable (analyzer : Analyzer)

theorem alone_never (unit : SourceUnit) :
    analyzer.alone ⟨unit, .never⟩ = .ok (analyzer.reportOn unit) :=
  analyzer.run_eq unit (Cache.isRight_empty _)

/-- A report counts the diagnostics that it lists. -/
theorem diagnostics_reportOn (unit : SourceUnit) :
    (analyzer.reportOn unit).stats.diagnostics = (analyzer.reportOn unit).diagnostics.length := by
  simp [reportOn, Context.orderedFindings]

/-- The report of outcomes that have been collected in the order of the units. -/
def ofOutcomes (outcomes : List (String × Except Fault Report)) : BatchReport :=
  let (results, failures) := collect (·.1) (·.2) outcomes
  ⟨results, failures⟩

theorem ofOutcomes_of_ok (units : List SourceUnit) :
    ofOutcomes (units.map fun unit => (unit.tree.file, .ok (analyzer.reportOn unit))) =
      ⟨units.map analyzer.reportOn, []⟩ := by
  simp [ofOutcomes, collect_eq, List.filterMap_map, Except.toOption]

/-- **A batch that nothing disturbs** gives a report for each unit, and no failure. -/
theorem runAll_eq (units : List SourceUnit) :
    analyzer.runAll (fun _ => .never) units = ⟨units.map analyzer.reportOn, []⟩ := by
  have hOutcomes := analyzer.outcomes_of_isRight (fun _ => .never) units
    (Cache.isRight_empty analyzer.config.classify) 0
  have hUnits : (analyzer.outcomes (fun _ => .never) {} 0 units).1 =
      units.map fun unit => (unit.tree.file, .ok (analyzer.reportOn unit)) := by
    rw [hOutcomes]
    simp only [alone_never]
    exact List.ext_getElem (by simp) (by simp)
  show ofOutcomes (analyzer.outcomes (fun _ => .never) {} 0 units).1 = _
  rw [hUnits, ofOutcomes_of_ok]

/-- The report of a batch whose units are analysed by workers that share the cache.  Their steps are
interleaved in any way, and the outcomes are collected in the order of the units. -/
def IsConcurrentBatch (units : List SourceUnit) (report : BatchReport) : Prop :=
  ∃ (events : List (Fin units.length × CacheEvent))
    (last : Pool (Fin units.length) (Except Fault Report))
    (outcomes : Fin units.length → Except Fault Report),
    Pool.Run analyzer.config.classify
      (analyzer.pool fun k : Fin units.length => ⟨units.get k, .never⟩) events last ∧
    (∀ k, last.tasks k = .active (.done (outcomes k))) ∧
    report = ofOutcomes (List.ofFn fun k => ((units.get k).tree.file, outcomes k))

/-- An analysis that has come to its end in a pool has found what it finds alone. -/
theorem outcome_of_run {units : List SourceUnit} {events : List (Fin units.length × CacheEvent)}
    {last : Pool (Fin units.length) (Except Fault Report)}
    (hRun : Pool.Run analyzer.config.classify
      (analyzer.pool fun k : Fin units.length => ⟨units.get k, .never⟩) events last)
    {k : Fin units.length} {outcome : Except Fault Report}
    (hDone : last.tasks k = .active (.done outcome)) :
    outcome = .ok (analyzer.reportOn (units.get k)) := by
  have hSound := hRun.isSound (Pool.isSound_fresh analyzer.config.classify
    fun k : Fin units.length => analyzer.inquiry ⟨units.get k, .never⟩)
  have hAnswer := hSound.answer k
  rw [hDone, answer_inquiry, alone_never] at hAnswer
  exact hAnswer

/-- **Workers cannot be told from one after the other**: a batch on many workers ends, and its report
is that of the batch in sequence. -/
theorem isConcurrentBatch_iff (units : List SourceUnit) (report : BatchReport) :
    analyzer.IsConcurrentBatch units report ↔
      report = analyzer.runAll (fun _ => .never) units := by
  have hCollected : ofOutcomes (List.ofFn fun k : Fin units.length =>
      ((units.get k).tree.file, .ok (analyzer.reportOn (units.get k)))) =
        analyzer.runAll (fun _ => .never) units := by
    have hUnits : List.ofFn (fun k : Fin units.length =>
        ((units.get k).tree.file, Except.ok (ε := Fault) (analyzer.reportOn (units.get k)))) =
          units.map fun unit => (unit.tree.file, .ok (analyzer.reportOn unit)) := by
      rw [← List.ofFn_getElem_eq_map]
      rfl
    rw [hUnits, ofOutcomes_of_ok, runAll_eq]
  constructor
  · rintro ⟨events, last, outcomes, hRun, hDone, rfl⟩
    have hOutcomes : outcomes = fun k => .ok (analyzer.reportOn (units.get k)) :=
      funext fun k => analyzer.outcome_of_run hRun (hDone k)
    rw [hOutcomes, hCollected]
  · rintro rfl
    obtain ⟨events, last, -, hRun, hFinished, -⟩ :=
      analyzer.exists_run_batch (fun _ => .never) units
    refine ⟨events, last, fun k => .ok (analyzer.reportOn (units.get k)), hRun, ?_,
      hCollected.symm⟩
    intro k
    obtain ⟨outcome, hDone⟩ := hFinished k
    rw [hDone, analyzer.outcome_of_run hRun hDone]

end Analyzer

/-! ## What all results come to -/

namespace BatchReport

/-- The counts of a report are sums over its results. -/
theorem stats_eq (report : BatchReport) :
    report.stats = ⟨(report.results.map (·.stats.nodes)).sum,
      (report.results.map (·.stats.candidates)).sum,
      (report.results.map (·.stats.diagnostics)).sum⟩ := by
  have hFold : ∀ (results : List Report) (start : Stats),
      results.foldl (fun s r => s.add r.stats) start =
        start.add ⟨(results.map (·.stats.nodes)).sum, (results.map (·.stats.candidates)).sum,
          (results.map (·.stats.diagnostics)).sum⟩ := by
    intro results
    induction results with
    | nil => intro start; rfl
    | cons result rest ih =>
        intro start
        rw [List.foldl_cons, ih]
        simp [Stats.add, Nat.add_assoc]
  rw [stats, hFold]
  simp [Stats.add]

end BatchReport

namespace Diagnostic

/-- The greatest severity reaches a bound exactly if that of some diagnostic does. -/
theorem le_maxSeverity?_iff (bound : Severity) (diagnostics : List Diagnostic) :
    (∃ severity, maxSeverity? diagnostics = some severity ∧ bound.le severity = true) ↔
      ∃ diagnostic ∈ diagnostics, bound.le diagnostic.severity = true := by
  have hMax : ∀ a b : Severity, bound.le (a.max b) = true ↔
      bound.le a = true ∨ bound.le b = true := by
    intro a b
    cases bound <;> cases a <;> cases b <;> decide
  -- the greatest severity so far stands for the diagnostics that have been passed
  have hFold : ∀ (diagnostics : List Diagnostic) (most : Option Severity),
      (∃ severity, diagnostics.foldl (fun most diagnostic =>
          some ((most.map (·.max diagnostic.severity)).getD diagnostic.severity)) most =
            some severity ∧ bound.le severity = true) ↔
        (∃ severity, most = some severity ∧ bound.le severity = true) ∨
          ∃ diagnostic ∈ diagnostics, bound.le diagnostic.severity = true := by
    intro diagnostics
    induction diagnostics with
    | nil => simp
    | cons diagnostic rest ih =>
        intro most
        rw [List.foldl_cons, ih]
        cases most with
        | none => simp
        | some severity => simp [hMax, or_assoc]
  rw [maxSeverity?, hFold diagnostics none]
  simp

end Diagnostic

namespace BatchReport

/-- **The exit code for a report**: failures come first, then findings that are serious enough. -/
theorem exitCode_eq (report : BatchReport) (failOn : Severity) :
    report.exitCode failOn =
      if report.failures ≠ [] then 2
      else if ∃ diagnostic ∈ report.diagnostics, failOn.le diagnostic.severity = true then 1
      else 0 := by
  have hSevere := Diagnostic.le_maxSeverity?_iff failOn report.diagnostics
  simp only [exitCode, hasFailures, maxSeverity?, ← hSevere]
  by_cases hFailures : report.failures = []
  · cases Diagnostic.maxSeverity? report.diagnostics with
    | none => simp [hFailures]
    | some severity => simp [hFailures, Outcome.findingsCode]
  · simp [hFailures, Outcome.inputCode]

end BatchReport

/-! ## Sequential checks -/

namespace Config

/-- Configurations that differ at most in whether files may be analysed at the same time. -/
def IsParallelTo (c d : Config) : Prop :=
  ∃ parallel, d = { c with analysis := { c.analysis with parallel := parallel } }

namespace IsParallelTo

variable {c d : Config}

theorem symm (h : c.IsParallelTo d) : d.IsParallelTo c := by
  obtain ⟨parallel, rfl⟩ := h
  exact ⟨c.analysis.parallel, rfl⟩

theorem trustsMore (h : c.IsParallelTo d) : c.TrustsMore d := by
  obtain ⟨parallel, rfl⟩ := h
  exact { TrustsMore.refl c with }

theorem error?_eq (h : c.IsParallelTo d) : d.error? = c.error? := by
  obtain ⟨parallel, rfl⟩ := h
  rfl

theorem rules_eq (h : c.IsParallelTo d) : d.rules = c.rules := by
  obtain ⟨parallel, rfl⟩ := h
  rfl

theorem diagnostics_sublist (h : c.IsParallelTo d) (hAccepted : c.error? = none)
    (unit : SourceUnit) : ((Analyzer.mk d d.rules).reportOn unit).diagnostics.Sublist
      ((Analyzer.mk c c.rules).reportOn unit).diagnostics := by
  have hc : c.validate = .ok c := by simp [validate, hAccepted]
  have hd : d.validate = .ok d := by simp [validate, h.error?_eq, hAccepted]
  obtain ⟨report, report', hReport, hReport', hSublist⟩ :=
    sublist_of_trustsMore h.trustsMore hc hd unit
  rw [report_eq hc] at hReport
  rw [report_eq hd] at hReport'
  obtain rfl := Except.ok.inj hReport
  obtain rfl := Except.ok.inj hReport'
  exact hSublist

/-- **The report about a unit** says the same, whether or not other units may be analysed with it. -/
theorem reportOn_eq (h : c.IsParallelTo d) (hAccepted : c.error? = none) (unit : SourceUnit) :
    (Analyzer.mk d d.rules).reportOn unit = (Analyzer.mk c c.rules).reportOn unit := by
  have hSame := (h.diagnostics_sublist hAccepted unit).antisymm
    (h.symm.diagnostics_sublist (h.error?_eq.trans hAccepted) unit)
  have hCount := congrArg List.length hSame
  rw [← Analyzer.diagnostics_reportOn, ← Analyzer.diagnostics_reportOn] at hCount
  simp only [Analyzer.reportOn, Report.mk.injEq, Stats.mk.injEq] at hSame hCount ⊢
  refine ⟨trivial, hSame, trivial, ?_, hCount⟩
  rw [h.rules_eq]
  rfl

end IsParallelTo

end Config

/-! ## Checks -/

namespace CheckRequest

/-- What a request makes of the configuration in its file. -/
def edited (request : CheckRequest) (config : Config) : Config := config.editAll request.edits

variable (request : CheckRequest)

theorem editAll_disable (config : Config) (codes : List String) :
    config.editAll (codes.map (.addName .disabledRules)) =
      { config with disabledRules := config.disabledRules ++ codes } := by
  induction codes generalizing config with
  | nil => simp [Config.editAll]
  | cons code rest ih =>
      simp only [Config.editAll, List.map_cons, List.foldl_cons] at ih ⊢
      rw [ih]
      simp [Config.edit, Config.updateTable]

/-- A request adds rules to leave out, and may forbid that files are analysed at the same time. -/
theorem edited_eq (config : Config) :
    request.edited config = { config with
      analysis := { config.analysis with
        parallel := config.analysis.parallel && !request.sequential }
      disabledRules := config.disabledRules ++ request.disabled } := by
  unfold edited edits
  cases request.sequential with
  | true =>
      have hFirst : config.editAll ([.parallel false] ++
          request.disabled.map (.addName .disabledRules)) =
            (config.edit (.parallel false)).editAll
              (request.disabled.map (.addName .disabledRules)) := rfl
      simp only [if_true, hFirst, editAll_disable]
      simp [Config.edit]
  | false => simp [editAll_disable]

theorem isParallelTo_edited (config : Config) (sequential : Bool) :
    (request.edited config).IsParallelTo
      ({ request with sequential := sequential }.edited config) := by
  rw [edited_eq, edited_eq]
  exact ⟨_, rfl⟩

end CheckRequest

namespace Analyzer

/-- What a path contributes to a report: the report about its unit alone, or a failure. -/
def entry (analyzer : Analyzer) (read : FileReader) (path : String) : Except Failure Report :=
  match SourceUnit.load read analyzer.config path with
  | .error fault => .error ⟨path, fault.display⟩
  | .ok unit =>
    (analyzer.alone ⟨unit, .never⟩).mapError fun fault => ⟨unit.tree.file, fault.display⟩

/-- The failure among what paths contribute. -/
def failure? : Except Failure Report → Option Failure
  | .ok _ => none
  | .error failure => some failure

theorem length_results_add_failures (entries : List (Except Failure Report)) :
    (entries.filterMap (·.toOption)).length + (entries.filterMap failure?).length =
      entries.length := by
  induction entries with
  | nil => rfl
  | cons entry rest ih =>
      cases entry with
      | ok report => exact (Nat.succ_add ..).trans (congrArg Nat.succ ih)
      | error failure => exact congrArg Nat.succ ih

end Analyzer

theorem Config.IsParallelTo.entry_eq {c d : Config} (h : c.IsParallelTo d)
    (hAccepted : c.error? = none) (read : FileReader) :
    (Analyzer.mk d d.rules).entry read = (Analyzer.mk c c.rules).entry read := by
  funext path
  simp only [Analyzer.entry, SourceUnit.load_eq h.trustsMore.toTypesLike read path]
  cases SourceUnit.load read c path with
  | error fault => rfl
  | ok unit => simp only [Analyzer.alone_never, h.reportOn_eq hAccepted]

namespace CheckRequest

variable (request : CheckRequest)

/-- **Every path is accounted for**, by what it contributes alone. -/
theorem reportOf_eq (read : FileReader) (analyzer : Analyzer) :
    request.reportOf read analyzer =
      ⟨(request.files.map (analyzer.entry read)).filterMap (·.toOption),
        (request.files.map (analyzer.entry read)).filterMap Analyzer.failure?⟩ := by
  simp only [reportOf, loadAll, collect_eq, Analyzer.runAll_eq, BatchReport.withFailures,
    List.append_nil, List.filterMap_map, List.map_filterMap, BatchReport.mk.injEq, id_eq]
  constructor
  · apply List.filterMap_congr
    intro path _
    simp only [Function.comp_apply, Analyzer.entry]
    cases SourceUnit.load read analyzer.config path with
    | error fault => rfl
    | ok unit => simp [Analyzer.alone_never, Except.mapError, Except.toOption]
  · apply List.filterMap_congr
    intro path _
    simp only [Function.comp_apply, Analyzer.entry]
    cases SourceUnit.load read analyzer.config path with
    | error fault => rfl
    | ok unit => simp [Analyzer.alone_never, Except.mapError, Analyzer.failure?]

/-- A report counts the diagnostics of all results. -/
theorem diagnostics_reportOf (read : FileReader) (analyzer : Analyzer) :
    (request.reportOf read analyzer).stats.diagnostics =
      (request.reportOf read analyzer).diagnostics.length := by
  rw [BatchReport.stats_eq, BatchReport.diagnostics, List.length_flatMap]
  refine congrArg List.sum (List.map_congr_left ?_)
  intro report hMem
  simp only [reportOf, loadAll, collect_eq, Analyzer.runAll_eq, BatchReport.withFailures] at hMem
  obtain ⟨unit, -, rfl⟩ := List.mem_map.1 hMem
  exact analyzer.diagnostics_reportOn unit

/-- The report of a request that names an acceptable configuration. -/
theorem report_of_accepted {read : FileReader} {config : Config}
    (hBase : request.baseConfig read = .ok config) (hAccepted : (request.edited config).error? = none) :
    request.report read =
      .ok (request.reportOf read ⟨request.edited config, (request.edited config).rules⟩) := by
  simp only [edited] at hAccepted
  simp only [report, hBase, Analyzer.ofConfig, Analyzer.withRules, hAccepted, edited]

/-- The report of a request that names a configuration which is not acceptable. -/
theorem report_of_refused {read : FileReader} {config : Config} {error : ConfigError}
    (hBase : request.baseConfig read = .ok config)
    (hRefused : (request.edited config).error? = some error) :
    request.report read = .error error.toFault.display := by
  simp only [edited] at hRefused
  simp only [report, hBase, Analyzer.ofConfig, Analyzer.withRules, hRefused]

/-- **One file at a time or many**: the report is the same. -/
theorem report_sequential (read : FileReader) (sequential : Bool) :
    { request with sequential := sequential }.report read = request.report read := by
  cases hBase : request.baseConfig read with
  | error error =>
      have hBase' : { request with sequential := sequential }.baseConfig read = .error error := hBase
      simp only [report, hBase, hBase']
  | ok config =>
      have hBase' : { request with sequential := sequential }.baseConfig read = .ok config := hBase
      have hParallel := request.isParallelTo_edited config sequential
      cases hAccepted : (request.edited config).error? with
      | some error =>
          rw [request.report_of_refused hBase hAccepted,
            report_of_refused _ hBase' (hParallel.error?_eq.trans hAccepted)]
      | none =>
          rw [request.report_of_accepted hBase hAccepted,
            report_of_accepted _ hBase' (hParallel.error?_eq.trans hAccepted)]
          simp only [reportOf_eq, hParallel.entry_eq hAccepted read]

/-- **No input is lost and the exit code tells the truth.**  A check ends in one of three ways.  The
configuration cannot be loaded, or it is not accepted with the rules that are to be left out: then the
exit code is 2 and nothing is printed but the error.  Otherwise every path contributes one entry,
a result or a failure, and the report has both in the order of the paths; its counts are sums over the
results, its diagnostics are those of the results one after the other, and the exit code goes by
failures first and by severity then.  Workers that share the work in whatever way arrive at the same
report, and so does a check of one file at a time. -/
theorem check_accounts_for_every_input (read : FileReader) (elapsed : Nat) :
    let outcome := ((Command.check request).answer read).outcome elapsed
    ((∃ error, request.baseConfig read = .error error ∧
        outcome = ⟨2, .lines [], ["error: " ++ error.message]⟩) ∨
      (∃ config error, request.baseConfig read = .ok config ∧
        (request.edited config).validate = .error error ∧
        outcome = ⟨2, .lines [], ["error: " ++ error.toFault.display]⟩) ∨
      ∃ config report, request.baseConfig read = .ok config ∧
        (request.edited config).validate = .ok (request.edited config) ∧
        (Command.check request).answer read = .report request report ∧
        let analyzer : Analyzer := ⟨request.edited config, (request.edited config).rules⟩
        let entries := request.files.map (analyzer.entry read)
        let (units, failures) := loadAll read analyzer.config request.files
        report.results = entries.filterMap (·.toOption) ∧
        report.failures = entries.filterMap Analyzer.failure? ∧
        report.results.length + report.failures.length = request.files.length ∧
        report.stats = ⟨(report.results.map (·.stats.nodes)).sum,
          (report.results.map (·.stats.candidates)).sum,
          (report.results.map (·.stats.diagnostics)).sum⟩ ∧
        report.diagnostics = report.results.flatMap (·.diagnostics) ∧
        report.stats.diagnostics = report.diagnostics.length ∧
        outcome.output = (match request.format with
          | .text => .lines (report.diagnostics.map Diagnostic.display ++ [report.summary elapsed])
          | .json => .json (report.toJson elapsed)) ∧
        outcome.exitCode = (if report.failures ≠ [] then 2
          else if ∃ diagnostic ∈ report.diagnostics,
            request.failOn.le diagnostic.severity = true then 1
          else 0) ∧
        (∃ found, analyzer.IsConcurrentBatch units found) ∧
        ∀ found, analyzer.IsConcurrentBatch units found → found.withFailures failures = report) ∧
    ∀ sequential, { request with sequential := sequential }.report read = request.report read := by
  refine ⟨?_, request.report_sequential read⟩
  cases hBase : request.baseConfig read with
  | error error =>
      refine .inl ⟨error, rfl, ?_⟩
      simp only [Command.answer, report, hBase]
      rfl
  | ok config =>
      right
      cases hAccepted : (request.edited config).error? with
      | some error =>
          refine .inl ⟨config, error, rfl, by simp [Config.validate, hAccepted], ?_⟩
          simp only [Command.answer, request.report_of_refused hBase hAccepted]
          rfl
      | none =>
          let analyzer : Analyzer := ⟨request.edited config, (request.edited config).rules⟩
          have hAnswer : (Command.check request).answer read =
              .report request (request.reportOf read analyzer) := by
            simp only [Command.answer, request.report_of_accepted hBase hAccepted, analyzer]
          have hResults := congrArg BatchReport.results (request.reportOf_eq read analyzer)
          have hFailures := congrArg BatchReport.failures (request.reportOf_eq read analyzer)
          refine .inr ⟨config, request.reportOf read analyzer, rfl,
            by simp [Config.validate, hAccepted], hAnswer, hResults, hFailures, ?_,
            BatchReport.stats_eq _, rfl, request.diagnostics_reportOf read analyzer, ?_, ?_, ?_, ?_⟩
          · rw [hResults, hFailures, Analyzer.length_results_add_failures, List.length_map]
          · rw [hAnswer]
            simp only [Answer.outcome, print]
            cases request.format <;> rfl
          · rw [hAnswer, ← BatchReport.exitCode_eq]
            simp only [Answer.outcome, print]
            cases request.format <;> rfl
          · exact ⟨_, (analyzer.isConcurrentBatch_iff _ _).2 rfl⟩
          · intro found hFound
            rw [(analyzer.isConcurrentBatch_iff _ _).1 hFound]
            rfl

end CheckRequest

end StateGuard
