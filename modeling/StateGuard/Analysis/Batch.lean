import StateGuard.Analysis.Input
import StateGuard.Analysis.Run

/-!
# Batches

Many units analysed by one analyzer. Every input ends up in the results or in the failures, each in
the order of the inputs; the inputs that could not be loaded come before those that could not be
analysed.
-/

namespace StateGuard

/-- An input without a result. -/
structure Failure where
  file : String
  error : String
  deriving DecidableEq, Repr, Inhabited

/-- The result of a batch. -/
structure BatchReport where
  results : List Report
  failures : List Failure
  deriving DecidableEq, Repr

namespace BatchReport

/-- The diagnostics of all results. -/
def diagnostics (report : BatchReport) : List Diagnostic :=
  report.results.flatMap (·.diagnostics)

/-- What all results together have done. -/
def stats (report : BatchReport) : Stats := report.results.foldl (fun s r => s.add r.stats) {}

/-- The greatest severity that was found. -/
def maxSeverity? (report : BatchReport) : Option Severity :=
  Diagnostic.maxSeverity? report.diagnostics

/-- Whether some input has no result. -/
def hasFailures (report : BatchReport) : Bool := !report.failures.isEmpty

/-- The report with earlier failures in front. -/
def withFailures (report : BatchReport) (failures : List Failure) : BatchReport :=
  { report with failures := failures ++ report.failures }

end BatchReport

/-- The units and failures of loading inputs one by one. -/
def collect {ι α : Type} (name : ι → String) (load : ι → Except Fault α) :
    List ι → List α × List Failure
  | [] => ([], [])
  | input :: rest =>
    let (units, failures) := collect name load rest
    match load input with
    | .ok unit => (unit :: units, failures)
    | .error fault => (units, ⟨name input, fault.display⟩ :: failures)

/-- The units of files, and the files that could not be loaded. -/
def loadAll (read : FileReader) (config : Config) (paths : List String) :
    List SourceUnit × List Failure :=
  collect id (SourceUnit.load read config) paths

namespace Analyzer

/-- What units give one after the other, with one cache for all. -/
def outcomes (analyzer : Analyzer) (signals : Nat → Signal) (cache : Cache) (position : Nat) :
    List SourceUnit → List (String × Except Fault Report) × Cache
  | [] => ([], cache)
  | unit :: rest =>
    let (outcome, cache) := analyzer.run unit (signals position) cache
    let (others, cache) := analyzer.outcomes signals cache (position + 1) rest
    ((unit.tree.file, outcome) :: others, cache)

/-- Analyse units. -/
def runAll (analyzer : Analyzer) (signals : Nat → Signal) (units : List SourceUnit) :
    BatchReport :=
  let (outcomes, _) := analyzer.outcomes signals {} 0 units
  let (results, failures) := collect (·.1) (·.2) outcomes
  ⟨results, failures⟩

end Analyzer

end StateGuard
