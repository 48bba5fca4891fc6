import StateGuard.Analysis.Inspection

/-!
# Analysing a unit

All rules look at all nodes of the tree in source order, and what they find is sorted for the
report. Before each node that some rule looks at, the run asks whether it has been cancelled; a
cancelled run reports nothing but the place where it stopped.
-/

namespace StateGuard

/-- How much a run has done. -/
structure Stats where
  /-- The nodes of the tree. -/
  nodes : Nat := 0
  /-- The pairs of a node and a rule that looked at it. -/
  candidates : Nat := 0
  diagnostics : Nat := 0
  deriving DecidableEq, Repr, Inhabited

/-- What two runs have done together. -/
def Stats.add (a b : Stats) : Stats :=
  ⟨a.nodes + b.nodes, a.candidates + b.candidates, a.diagnostics + b.diagnostics⟩

/-- The result of analysing a unit. -/
structure Report where
  file : String
  diagnostics : List Diagnostic
  stats : Stats
  deriving DecidableEq, Repr

/-- What has been found in some nodes of a tree. -/
structure Sweep where
  candidates : Nat
  findings : List Diagnostic
  deriving DecidableEq, Repr

/-- The answers to the successive questions whether a run has been cancelled. -/
abbrev Signal : Type := Nat → Bool

/-- A run that is never cancelled. -/
def Signal.never : Signal := fun _ => false

/-- A run that was cancelled before it began. -/
def Signal.always : Signal := fun _ => true

/-- The fault of a run that was cancelled before a node. -/
def Context.cancelled (ctx : Context) (i : ctx.Id) : Fault :=
  ((Fault.of .cancelled "analysis cancelled").inFile ctx.tree.file).onLine
    (ctx.tree.span i).start.line

/-- What rules find in a list of nodes, unless the run is cancelled. `asked` questions have been
asked before. -/
def sweep (ctx : Context) (rules : List Rule) (signal : Signal) (asked : Nat) :
    List ctx.Id → Inquiry (Except Fault Sweep)
  | [] => return .ok ⟨0, []⟩
  | i :: rest =>
    let subscribed := Rule.subscribed rules (ctx.tree.node i).kind
    if subscribed.isEmpty then sweep ctx rules signal asked rest
    else if signal asked then return .error (ctx.cancelled i)
    else do
      let found ← inspectNode ctx i subscribed
      match ← sweep ctx rules signal (asked + 1) rest with
      | .error fault => return .error fault
      | .ok others =>
        return .ok ⟨subscribed.length + others.candidates, found ++ others.findings⟩

/-- The report of what a sweep over the whole tree found. -/
def Sweep.report (sweep : Sweep) (ctx : Context) : Report where
  file := ctx.tree.file
  diagnostics := Diagnostic.sorted sweep.findings
  stats := ⟨ctx.tree.preorder.length, sweep.candidates, sweep.findings.length⟩

/-- Analyse a unit by a list of rules. -/
def analyze (ctx : Context) (rules : List Rule) (signal : Signal) :
    Inquiry (Except Fault Report) :=
  return (← sweep ctx rules signal 0 ctx.tree.preorder).map (·.report ctx)

/-- A configuration that has been accepted, and the rules to apply. -/
structure Analyzer where
  config : Config
  rules : List Rule

namespace Analyzer

/-- An analyzer with chosen rules. -/
def withRules (config : Config) (rules : List Rule) : Except Fault Analyzer :=
  match config.error? with
  | some error => .error error.toFault
  | none => .ok ⟨config, rules⟩

/-- An analyzer with the rules that the configuration does not leave out. -/
def ofConfig (config : Config) : Except Fault Analyzer := withRules config config.rules

/-- Analyse a unit, given what has been classified before. -/
def run (analyzer : Analyzer) (unit : SourceUnit) (signal : Signal) (cache : Cache) :
    Except Fault Report × Cache :=
  (analyze (.ofUnit unit analyzer.config) analyzer.rules signal).run analyzer.config.classify cache

end Analyzer

end StateGuard
