import StateGuard.Rule
import StateGuard.Span

/-!
# Diagnostics

What a rule reports about one node. Reports list diagnostics by file, place, code and node.
-/

namespace StateGuard

/-- A finding of a rule. -/
structure Diagnostic where
  rule : Rule
  file : String
  span : Span
  node : Nat
  /-- What is filled into the message of the rule. -/
  arguments : List String
  deriving DecidableEq, Repr

namespace Diagnostic

/-- The code of the rule. -/
def code (diagnostic : Diagnostic) : String := diagnostic.rule.code

/-- The severity of the rule. -/
def severity (diagnostic : Diagnostic) : Severity := diagnostic.rule.severity

/-- The message of the rule with the arguments filled in. -/
def message (diagnostic : Diagnostic) : String := diagnostic.rule.message diagnostic.arguments

/-- The line of a report. -/
def display (diagnostic : Diagnostic) : String :=
  diagnostic.file ++ ":" ++ diagnostic.span.display ++ ": " ++ diagnostic.severity.label ++ " " ++
    diagnostic.code ++ ": " ++ diagnostic.message

/-- The order of reports: by file, span, code and node. -/
def le (a b : Diagnostic) : Bool :=
  if a.file ≠ b.file then a.file < b.file
  else if a.span ≠ b.span then a.span.le b.span
  else if a.code ≠ b.code then a.code < b.code
  else a.node ≤ b.node

/-- Diagnostics in the order of reports. -/
def sorted (diagnostics : List Diagnostic) : List Diagnostic := diagnostics.mergeSort le

/-- The greatest severity among diagnostics. -/
def maxSeverity? (diagnostics : List Diagnostic) : Option Severity :=
  diagnostics.foldl
    (fun most diagnostic => some ((most.map (·.max diagnostic.severity)).getD diagnostic.severity))
    none

end Diagnostic

end StateGuard
