import StateGuard.Analysis.Batch

/-!
# Printed reports

A report as lines for people and as JSON for programs, and the list of rules.
-/

namespace StateGuard

/-! ## JSON -/

/-- A diagnostic as JSON. -/
def Diagnostic.toJson (diagnostic : Diagnostic) : Json :=
  .obj [("code", .str diagnostic.code), ("severity", .str diagnostic.severity.label),
    ("file_path", .str diagnostic.file), ("span", diagnostic.span.toJson),
    ("node", .nat diagnostic.node), ("message", .str diagnostic.message),
    ("arguments", .arr (diagnostic.arguments.map .str))]

/-- What a run has done as JSON, with its time in milliseconds. -/
def Stats.toJson (stats : Stats) (elapsed : Nat) : Json :=
  .obj [("nodes_visited", .nat stats.nodes), ("candidates", .nat stats.candidates),
    ("diagnostics", .nat stats.diagnostics), ("elapsed_ms", .nat elapsed)]

/-- The result of a unit as JSON. Units are not timed one by one. -/
def Report.toJson (report : Report) : Json :=
  .obj [("file_path", .str report.file),
    ("diagnostics", .arr (report.diagnostics.map Diagnostic.toJson)),
    ("stats", report.stats.toJson 0)]

/-- A failure as JSON. -/
def Failure.toJson (failure : Failure) : Json :=
  .obj [("file_path", .str failure.file), ("error", .str failure.error)]

namespace BatchReport

/-- The result of a batch as JSON, with its time in milliseconds. -/
def toJson (report : BatchReport) (elapsed : Nat) : Json :=
  .obj [("results", .arr (report.results.map Report.toJson)),
    ("failures", .arr (report.failures.map Failure.toJson)),
    ("stats", report.stats.toJson 0), ("elapsed_ms", .nat elapsed)]

/-! ## Lines -/

/-- The last line of a report. -/
def summary (report : BatchReport) (elapsed : Nat) : String :=
  toString report.stats.diagnostics ++ " diagnostic(s) in " ++ toString report.results.length ++
    " file(s), " ++ toString report.failures.length ++ " skipped (" ++ toString elapsed ++ " ms)"

/-- A report for people. -/
def lines (report : BatchReport) (elapsed : Nat) : List String :=
  report.diagnostics.map Diagnostic.display ++ [report.summary elapsed]

/-- The lines about failures. -/
def errorLines (report : BatchReport) : List String :=
  report.failures.map fun failure => "error: " ++ failure.file ++ ": " ++ failure.error

end BatchReport

/-- A text filled up with blanks to a width. -/
def Text.padded (width : Nat) (text : String) : String :=
  text ++ String.ofList (List.replicate (width - text.length) ' ')

/-- A rule in the list of rules. -/
def Rule.lines (rule : Rule) : List String :=
  [rule.code ++ "  " ++ Text.padded 7 rule.severity.label ++ "  " ++ rule.title,
   Text.padded 9 "" ++ rule.help]

end StateGuard
