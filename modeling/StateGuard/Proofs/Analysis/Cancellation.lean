import StateGuard.Proofs.CommandLine.Accounting
import StateGuard.Proofs.Finding.Default

/-!
# Cancelled runs

A run asks whether it has been cancelled before each node that some rule looks at, and at no other
moment.  The first question that is answered by yes ends it with an error about that node; what has
been found until then is dropped.  So a signal that comes after the last of these nodes comes too late,
and a tree without such nodes is always analysed to the end.

Nothing is assumed of the signal: no question follows one that was answered by yes, so what the signal
does afterwards cannot matter.  The units of a batch may each see their own sequence of answers, as
they do when a single signal comes while workers are at different places.

## Main results

* `Context.answer_sweep_eq`: a run up to its first positive answer.
* `Analyzer.alone_eq`: the outcome of a unit.
* `Analyzer.isInterleavedBatch_iff`: the report of a batch on many workers.
* `Analyzer.cancellation_is_all_or_nothing`: no outcome is partial.
-/

namespace StateGuard

/-- A signal that comes after some questions, and stays. -/
def Signal.since (answered : Nat) : Signal := fun asked => answered ≤ asked

/-- The first node of a list before which the question was answered by yes, when `asked` questions have
been asked before. -/
def Signal.firstStop? {ι : Type} (signal : Signal) (asked : Nat) : List ι → Option ι
  | [] => none
  | i :: rest => if signal asked then some i else signal.firstStop? (asked + 1) rest

namespace Signal

variable {ι : Type} {signal : Signal} {asked : Nat} {nodes : List ι}

theorem firstStop?_never (asked : Nat) (nodes : List ι) :
    Signal.never.firstStop? asked nodes = none := by
  induction nodes generalizing asked with
  | nil => rfl
  | cons i rest ih => exact ih (asked + 1)

/-- A run goes on to its end exactly if every question is answered by no. -/
theorem firstStop?_eq_none_iff : signal.firstStop? asked nodes = none ↔
    ∀ k < nodes.length, signal (asked + k) = false := by
  induction nodes generalizing asked with
  | nil => simp [firstStop?]
  | cons i rest ih =>
      rw [firstStop?, List.length_cons, Nat.forall_lt_succ_left]
      cases hSignal : signal asked with
      | true => simp
      | false => simp [ih, Nat.add_assoc, Nat.add_comm 1]

/-- A run that stops does so at the first question that is answered by yes. -/
theorem exists_of_firstStop?_eq_some {i : ι} (h : signal.firstStop? asked nodes = some i) :
    ∃ k, nodes[k]? = some i ∧ signal (asked + k) = true ∧
      ∀ j < k, signal (asked + j) = false := by
  induction nodes generalizing asked with
  | nil => cases h
  | cons first rest ih =>
      rw [firstStop?] at h
      cases hSignal : signal asked with
      | true =>
          obtain rfl : first = i := by simpa [hSignal] using h
          exact ⟨0, rfl, hSignal, fun j hj => absurd hj (Nat.not_lt_zero j)⟩
      | false =>
          rw [hSignal, if_neg Bool.false_ne_true] at h
          obtain ⟨k, hNode, hOn, hOff⟩ := ih h
          simp only [Nat.add_assoc, Nat.add_comm 1] at hOn hOff
          exact ⟨k + 1, hNode, hOn, Nat.forall_lt_succ_left.2 ⟨hSignal, hOff⟩⟩

/-- A signal that comes and stays stops a run before the next node, if there is one. -/
theorem firstStop?_since (answered asked : Nat) (nodes : List ι) :
    (since (asked + answered)).firstStop? asked nodes = nodes[answered]? := by
  induction nodes generalizing asked answered with
  | nil => rfl
  | cons i rest ih =>
      cases answered with
      | zero => simp [firstStop?, since]
      | succ answered =>
          have hLater : asked + (answered + 1) = asked + 1 + answered := by omega
          rw [firstStop?, since, if_neg (by simp), hLater, ih, List.getElem?_cons_succ]

end Signal

namespace Context

/-- Whether some rule of a list looks at a node. -/
def asksAt (ctx : Context) (rules : List Rule) (i : ctx.Id) : Bool :=
  rules.any fun rule => rule.inspects (ctx.tree.node i).kind

/-- The nodes before which a run asks whether it has been cancelled, in the order of the text. -/
def checkpoints (ctx : Context) (rules : List Rule) : List ctx.Id :=
  ctx.tree.preorder.filter (ctx.asksAt rules)

variable {ctx : Context} {rules : List Rule}

theorem isEmpty_subscribed (i : ctx.Id) :
    (Rule.subscribed rules (ctx.tree.node i).kind).isEmpty = !ctx.asksAt rules i := by
  rw [Bool.eq_iff_iff]
  simp [Rule.subscribed, asksAt]

/-- A run takes no notice of a node that no rule looks at. -/
theorem sweep_of_not_asksAt {i : ctx.Id} (h : ctx.asksAt rules i = false) (signal : Signal)
    (asked : Nat) (rest : List ctx.Id) :
    sweep ctx rules signal asked (i :: rest) = sweep ctx rules signal asked rest := by
  rw [sweep, isEmpty_subscribed, h]
  rfl

/-- Before any other node it asks, and then looks at the node before it goes on. -/
theorem answer_sweep_of_asksAt {i : ctx.Id} (h : ctx.asksAt rules i = true) (signal : Signal)
    (asked : Nat) (rest : List ctx.Id) :
    ctx.answer (sweep ctx rules signal asked (i :: rest)) =
      if signal asked then .error (ctx.cancelled i)
      else (ctx.answer (sweep ctx rules signal (asked + 1) rest)).map fun others =>
        ⟨(Rule.subscribed rules (ctx.tree.node i).kind).length + others.candidates,
          ctx.foundAt rules i ++ others.findings⟩ := by
  rw [sweep, isEmpty_subscribed, h, if_neg (by simp)]
  split
  · rfl
  · simp only [Inquiry.answer_bind, answer_inspectNode, Context.answer]
    cases (sweep ctx rules signal (asked + 1) rest).answer ctx.config.classify <;> rfl

/-- **A run up to its first positive answer.**  It ends there with an error, or goes on to the end as if
nothing had been asked. -/
theorem answer_sweep_eq (signal : Signal) (asked : Nat) (nodes : List ctx.Id) :
    ctx.answer (sweep ctx rules signal asked nodes) =
      match signal.firstStop? asked (nodes.filter (ctx.asksAt rules)) with
      | some i => .error (ctx.cancelled i)
      | none => ctx.answer (sweep ctx rules .never asked nodes) := by
  induction nodes generalizing asked with
  | nil => rfl
  | cons i rest ih =>
      cases hAsks : ctx.asksAt rules i with
      | false =>
          rw [sweep_of_not_asksAt hAsks, sweep_of_not_asksAt hAsks, ih,
            List.filter_cons_of_neg (by simp [hAsks])]
      | true =>
          rw [answer_sweep_of_asksAt hAsks, answer_sweep_of_asksAt hAsks,
            List.filter_cons_of_pos hAsks, Signal.firstStop?, ih (asked + 1)]
          cases signal asked with
          | true => rfl
          | false => cases signal.firstStop? (asked + 1) (rest.filter (ctx.asksAt rules)) <;> rfl

end Context

namespace Analyzer

variable (analyzer : Analyzer)

/-- The nodes of a unit before which the analyzer asks whether it has been cancelled. -/
def checkpoints (unit : SourceUnit) : List (Context.ofUnit unit analyzer.config).Id :=
  (Context.ofUnit unit analyzer.config).checkpoints analyzer.rules

/-- The error that an analysis ends in when it is cancelled. -/
def stop? (job : Job) : Option Fault :=
  (job.signal.firstStop? 0 (analyzer.checkpoints job.unit)).map
    (Context.ofUnit job.unit analyzer.config).cancelled

/-- **The outcome of a unit** is the whole report, or the error of the first positive answer. -/
theorem alone_eq (job : Job) :
    analyzer.alone job =
      match analyzer.stop? job with
      | some fault => .error fault
      | none => .ok (analyzer.reportOn job.unit) := by
  let ctx := Context.ofUnit job.unit analyzer.config
  have hFull := analyzer.alone_never job.unit
  rw [← answer_inquiry] at hFull ⊢
  simp only [inquiry, analyze, Inquiry.answer_bind, Inquiry.answer_pure] at hFull ⊢
  have hSweep := @Context.answer_sweep_eq ctx analyzer.rules job.signal 0 ctx.tree.preorder
  have hStop : analyzer.stop? job = (job.signal.firstStop? 0
      (ctx.tree.preorder.filter (ctx.asksAt analyzer.rules))).map ctx.cancelled := rfl
  rw [hStop]
  cases hFirst : job.signal.firstStop? 0 (ctx.tree.preorder.filter (ctx.asksAt analyzer.rules)) with
  | some i =>
      rw [hFirst] at hSweep
      exact congrArg (Except.map (·.report ctx)) hSweep
  | none =>
      rw [hFirst] at hSweep
      exact (congrArg (Except.map (·.report ctx)) hSweep).trans hFull

/-- Every question of an analysis is answered by no. -/
def Completes (job : Job) : Prop :=
  ∀ k < (analyzer.checkpoints job.unit).length, job.signal k = false

instance (job : Job) : Decidable (analyzer.Completes job) :=
  inferInstanceAs (Decidable (∀ k < _, _))

/-- An analysis is cancelled before the first node whose question is answered by yes, and the error
names its place. -/
def StopsWith (job : Job) (fault : Fault) : Prop :=
  ∃ k i, (analyzer.checkpoints job.unit)[k]? = some i ∧
    job.signal k = true ∧ (∀ j < k, job.signal j = false) ∧
    fault.kind = .cancelled ∧ fault.file = some job.unit.tree.file ∧
    fault.line = some (job.unit.tree.span i).start.line

variable {analyzer}

theorem completes_iff {job : Job} : analyzer.Completes job ↔ analyzer.stop? job = none := by
  rw [stop?, Option.map_eq_none_iff, Signal.firstStop?_eq_none_iff]
  simp only [Nat.zero_add]
  rfl

theorem stopsWith_of_stop? {job : Job} {fault : Fault} (h : analyzer.stop? job = some fault) :
    analyzer.StopsWith job fault := by
  obtain ⟨i, hFirst, rfl⟩ := Option.map_eq_some_iff.1 h
  obtain ⟨k, hNode, hOn, hOff⟩ := Signal.exists_of_firstStop?_eq_some hFirst
  simp only [Nat.zero_add] at hOn hOff
  exact ⟨k, i, hNode, hOn, hOff, rfl, rfl, rfl⟩

variable (analyzer)

/-- An analysis gives its whole report when it completes. -/
theorem alone_eq_ok_iff (job : Job) :
    analyzer.alone job = .ok (analyzer.reportOn job.unit) ↔ analyzer.Completes job := by
  rw [completes_iff, alone_eq]
  cases analyzer.stop? job <;> simp

/-- Otherwise it gives an error, and nothing else. -/
theorem exists_fault_of_not_completes {job : Job} (h : ¬ analyzer.Completes job) :
    ∃ fault, analyzer.alone job = .error fault ∧ analyzer.StopsWith job fault := by
  obtain ⟨fault, hStop⟩ := Option.ne_none_iff_exists'.1 (mt completes_iff.2 h)
  exact ⟨fault, by rw [alone_eq, hStop], stopsWith_of_stop? hStop⟩

/-- A signal that comes and stays is too late exactly if it comes after the last question. -/
theorem completes_since_iff (unit : SourceUnit) (answered : Nat) :
    analyzer.Completes ⟨unit, .since answered⟩ ↔ (analyzer.checkpoints unit).length ≤ answered := by
  have hFirst := Signal.firstStop?_since answered 0 (analyzer.checkpoints unit)
  rw [Nat.zero_add] at hFirst
  rw [completes_iff, stop?, Option.map_eq_none_iff, hFirst, List.getElem?_eq_none_iff]

/-! ## Batches -/

/-- The report of a batch of analyses by workers that share the cache.  Their steps are interleaved in
any way, and the outcomes are collected in the order of the analyses. -/
def IsInterleavedBatch (jobs : List Job) (report : BatchReport) : Prop :=
  ∃ (events : List (Fin jobs.length × CacheEvent))
    (last : Pool (Fin jobs.length) (Except Fault Report))
    (outcomes : Fin jobs.length → Except Fault Report),
    Pool.Run analyzer.config.classify (analyzer.pool jobs.get) events last ∧
    (∀ k, last.tasks k = .active (.done (outcomes k))) ∧
    report = ofOutcomes (List.ofFn fun k => ((jobs.get k).unit.tree.file, outcomes k))

/-- The report of analyses that each run alone. -/
def separately (jobs : List Job) : BatchReport :=
  ofOutcomes (jobs.map fun job => (job.unit.tree.file, analyzer.alone job))

/-- **Workers cannot be told from analyses that each run alone**, wherever the signal finds them. -/
theorem isInterleavedBatch_iff (jobs : List Job) (report : BatchReport) :
    analyzer.IsInterleavedBatch jobs report ↔ report = analyzer.separately jobs := by
  have hStart := Pool.isSound_fresh analyzer.config.classify fun k => analyzer.inquiry (jobs.get k)
  have hAlone : ∀ {events last}, Pool.Run analyzer.config.classify (analyzer.pool jobs.get) events
      last → ∀ {k outcome}, last.tasks k = .active (.done outcome) →
        outcome = analyzer.alone (jobs.get k) := by
    intro events last hRun k outcome hDone
    have hAnswer := (hRun.isSound hStart).answer k
    rw [hDone] at hAnswer
    exact hAnswer.trans (analyzer.answer_inquiry (jobs.get k))
  have hCollected : ofOutcomes (List.ofFn fun k : Fin jobs.length =>
      ((jobs.get k).unit.tree.file, analyzer.alone (jobs.get k))) = analyzer.separately jobs := by
    rw [separately, ← List.ofFn_getElem_eq_map]
    rfl
  constructor
  · rintro ⟨events, last, outcomes, hRun, hDone, rfl⟩
    have hOutcomes : outcomes = fun k => analyzer.alone (jobs.get k) :=
      funext fun k => hAlone hRun (hDone k)
    rw [hOutcomes, hCollected]
  · rintro rfl
    obtain ⟨events, last, hRun, hFinished⟩ := hStart.completes
    refine ⟨events, last, fun k => analyzer.alone (jobs.get k), hRun, ?_, hCollected.symm⟩
    intro k
    obtain ⟨outcome, hDone⟩ := hFinished k
    rw [hDone, hAlone hRun hDone]

/-- Neither can analyses one after the other. -/
theorem runAll_eq_separately (signals : Nat → Signal) (units : List SourceUnit) :
    analyzer.runAll signals units =
      analyzer.separately (units.mapIdx fun k unit => ⟨unit, signals k⟩) := by
  have hOutcomes := analyzer.outcomes_of_isRight signals units
    (Cache.isRight_empty analyzer.config.classify) 0
  show ofOutcomes (analyzer.outcomes signals {} 0 units).1 = _
  rw [hOutcomes, separately]
  exact congrArg ofOutcomes (List.ext_getElem (by simp) (by simp))

theorem separately_of_ok {job : Job} {report : Report} (h : analyzer.alone job = .ok report)
    (rest : List Job) : analyzer.separately (job :: rest) =
      { analyzer.separately rest with results := report :: (analyzer.separately rest).results } := by
  simp only [separately, ofOutcomes, List.map_cons, collect, h]

theorem separately_of_error {job : Job} {fault : Fault} (h : analyzer.alone job = .error fault)
    (rest : List Job) : analyzer.separately (job :: rest) =
      (analyzer.separately rest).withFailures [⟨job.unit.tree.file, fault.display⟩] := by
  simp only [separately, ofOutcomes, List.map_cons, collect, h]
  rfl

/-- The results of a batch are the whole reports of the analyses that complete, in order. -/
theorem results_separately (jobs : List Job) :
    (analyzer.separately jobs).results =
      (jobs.filter fun job => analyzer.Completes job).map (analyzer.reportOn ·.unit) := by
  induction jobs with
  | nil => rfl
  | cons job rest ih =>
      by_cases hCompletes : analyzer.Completes job
      · rw [List.filter_cons_of_pos (by simpa using hCompletes), List.map_cons, ← ih,
          analyzer.separately_of_ok ((analyzer.alone_eq_ok_iff job).2 hCompletes)]
      · obtain ⟨fault, hFault, -⟩ := analyzer.exists_fault_of_not_completes hCompletes
        rw [List.filter_cons_of_neg (by simpa using hCompletes), ← ih,
          analyzer.separately_of_error hFault]
        rfl

/-- The failures of a batch are the errors of the others, in order. -/
theorem failures_separately (jobs : List Job) :
    List.Forall₂ (fun job failure => failure.file = job.unit.tree.file ∧
        ∃ fault, analyzer.StopsWith job fault ∧ failure.error = fault.display)
      (jobs.filter fun job => ¬ analyzer.Completes job) (analyzer.separately jobs).failures := by
  induction jobs with
  | nil => exact .nil
  | cons job rest ih =>
      by_cases hCompletes : analyzer.Completes job
      · rw [List.filter_cons_of_neg (by simpa using hCompletes),
          analyzer.separately_of_ok ((analyzer.alone_eq_ok_iff job).2 hCompletes)]
        exact ih
      · obtain ⟨fault, hFault, hStops⟩ := analyzer.exists_fault_of_not_completes hCompletes
        rw [List.filter_cons_of_pos (by simpa using hCompletes),
          analyzer.separately_of_error hFault]
        exact .cons ⟨rfl, fault, hStops, rfl⟩ ih

/-- **Cancellation is all or nothing.**  Whatever a signal does, an analysis either gives the whole
report of a run that is never cancelled, or an error of kind cancelled.  It gives the report exactly if
none of its questions is answered by yes, and otherwise the error names the file, and the line on which
the first node starts whose question is.  In a batch each analysis sees the signal at moments of its
own.  Then the results are the whole reports of the analyses that complete, and the failures are the
errors of all others, each in the order of the units, whether these are analysed one after the other or
by workers that share the work in whatever way. -/
theorem cancellation_is_all_or_nothing (unit : SourceUnit) (signal : Signal) {cache : Cache}
    (hCache : cache.IsRight analyzer.config.classify) (units : List SourceUnit)
    (signals : Nat → Signal) :
    let full := analyzer.reportOn unit
    let outcome := (analyzer.run unit signal cache).1
    let jobs := units.mapIdx fun k unit => Job.mk unit (signals k)
    (analyzer.run unit .never cache).1 = .ok full ∧
    (outcome = .ok full ∨ ∃ fault, outcome = .error fault ∧ analyzer.StopsWith ⟨unit, signal⟩ fault) ∧
    (outcome = .ok full ↔ analyzer.Completes ⟨unit, signal⟩) ∧
    (∃ report, analyzer.IsInterleavedBatch jobs report) ∧
    ∀ report, report = analyzer.runAll signals units ∨ analyzer.IsInterleavedBatch jobs report →
      report.results =
        (jobs.filter fun job => analyzer.Completes job).map (analyzer.reportOn ·.unit) ∧
      List.Forall₂ (fun job failure => failure.file = job.unit.tree.file ∧
          ∃ fault, analyzer.StopsWith job fault ∧ failure.error = fault.display)
        (jobs.filter fun job => ¬ analyzer.Completes job) report.failures := by
  intro full outcome jobs
  have hOutcome : outcome = analyzer.alone ⟨unit, signal⟩ := by
    rw [← answer_inquiry]
    exact ((analyzer.inquiry ⟨unit, signal⟩).run_of_isRight hCache).1
  refine ⟨analyzer.run_eq unit hCache, ?_, ?_, ⟨_, (analyzer.isInterleavedBatch_iff _ _).2 rfl⟩, ?_⟩
  · rw [hOutcome]
    by_cases hCompletes : analyzer.Completes ⟨unit, signal⟩
    · exact .inl ((analyzer.alone_eq_ok_iff _).2 hCompletes)
    · exact .inr (analyzer.exists_fault_of_not_completes hCompletes)
  · rw [hOutcome]
    exact analyzer.alone_eq_ok_iff _
  · intro report hReport
    have hSeparately : report = analyzer.separately jobs := by
      rcases hReport with rfl | hBatch
      · exact analyzer.runAll_eq_separately signals units
      · exact (analyzer.isInterleavedBatch_iff jobs report).1 hBatch
    rw [hSeparately]
    exact ⟨analyzer.results_separately jobs, analyzer.failures_separately jobs⟩

/-- All rules look at three nodes of a spelled-out default: the conditional expression, the
discriminant and the payload. -/
theorem checkpoints_spelledOut :
    (Analyzer.mk {} Rule.all).checkpoints Context.spelledOut.toSourceUnit =
      ([(7 : Fin 8), (1 : Fin 8), (5 : Fin 8)] : List Context.spelledOut.Id) := by
  show List.filter _ Context.spelledOut.tree.preorder = _
  decide +kernel

/-- A signal after the first question stops the analysis of a spelled-out default before its
discriminant, and one after the last question comes too late.  In a batch that sees both, one unit
fails and the other has its report. -/
theorem late_signal_is_ignored :
    let analyzer : Analyzer := ⟨{}, Rule.all⟩
    let unit := Context.spelledOut.toSourceUnit
    Cache.IsRight ({} : Config).classify {} ∧
      (∃ fault, (analyzer.run unit (.since 1) {}).1 = .error fault ∧ fault.kind = .cancelled ∧
        fault.file = some "default.cs") ∧
      (analyzer.run unit (.since 3) {}).1 = .ok (analyzer.reportOn unit) ∧
      ∃ failure, analyzer.runAll (fun k => .since (1 + 2 * k)) [unit, unit] =
        ⟨[analyzer.reportOn unit], [failure]⟩ ∧ failure.file = "default.cs" := by
  intro analyzer unit
  have hRight := Cache.isRight_empty ({} : Config).classify
  have hCompletes : ∀ answered, analyzer.Completes ⟨unit, .since answered⟩ ↔ 3 ≤ answered := by
    intro answered
    rw [completes_since_iff, checkpoints_spelledOut]
    rfl
  obtain ⟨-, hEither, hFull, -, hBatch⟩ := analyzer.cancellation_is_all_or_nothing unit (.since 1)
    hRight [unit, unit] fun k => .since (1 + 2 * k)
  obtain ⟨-, -, hLate, -⟩ := analyzer.cancellation_is_all_or_nothing unit (.since 3) hRight [] fun _ =>
    .never
  refine ⟨hRight, ?_, hLate.2 ((hCompletes 3).2 le_rfl), ?_⟩
  · rcases hEither with hOk | ⟨fault, hError, _, _, _, _, _, hKind, hFile, -⟩
    · exact absurd (hFull.1 hOk) (by rw [hCompletes]; decide)
    · exact ⟨fault, hError, hKind, hFile⟩
  · obtain ⟨hResults, hFailures⟩ := hBatch _ (.inl rfl)
    have hStopped : ¬ analyzer.Completes ⟨unit, .since 1⟩ := by rw [hCompletes]; decide
    have hDone : analyzer.Completes ⟨unit, .since 3⟩ := (hCompletes 3).2 le_rfl
    simp only [List.mapIdx_cons, List.mapIdx_nil, Nat.mul_zero, Nat.add_zero, Nat.zero_add,
      Nat.mul_one, Nat.reduceAdd, List.filter_cons, hStopped, hDone, decide_true, decide_false,
      not_true_eq_false, not_false_eq_true, Bool.false_eq_true, if_true, if_false,
      List.filter_nil] at hResults hFailures
    obtain ⟨failure, _, ⟨hFile, -⟩, hRest, hList⟩ := List.forall₂_cons_left_iff.1 hFailures
    obtain rfl := List.forall₂_nil_left_iff.1 hRest
    refine ⟨failure, ?_, hFile⟩
    generalize analyzer.runAll (fun k => .since (1 + 2 * k)) [unit, unit] = report at *
    obtain ⟨results, failures⟩ := report
    exact congrArg₂ BatchReport.mk hResults hList

end Analyzer

end StateGuard
