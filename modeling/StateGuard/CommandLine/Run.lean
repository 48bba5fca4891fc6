import StateGuard.CommandLine.Command
import StateGuard.CommandLine.Output
import StateGuard.Config.Document
import StateGuard.Config.Edit

/-!
# Running commands

What a command prints and the code it exits with: 0 when nothing serious was found, 1 when
something was, 2 when an input or the configuration cannot be used.
-/

namespace StateGuard

/-- The configuration of a file. -/
def Config.load (read : FileReader) (path : String) : Except ConfigError Config :=
  match read path with
  | .error failure => .error (.unreadable failure.message)
  | .ok document => parse document

/-! ## Printed output -/

/-- What a command prints to the standard output. -/
inductive Output where
  | lines (content : List String)
  | json (value : Json)
  deriving Repr, Inhabited

/-- The printed text. -/
def Output.text : Output → String
  | .lines content => String.join (content.map (· ++ "\n"))
  | .json value => value.write ++ "\n"

/-- The end of a command. -/
structure Outcome where
  exitCode : Nat
  output : Output
  /-- The lines on the error output. -/
  errors : List String
  deriving Repr, Inhabited

namespace Outcome

/-- The code of a run that found something serious. -/
def findingsCode : Nat := 1

/-- The code of a run with an input that cannot be used. -/
def inputCode : Nat := 2

end Outcome

/-- The code for a report. Failures outweigh findings. -/
def BatchReport.exitCode (report : BatchReport) (failOn : Severity) : Nat :=
  if report.hasFailures then Outcome.inputCode
  else
    match report.maxSeverity? with
    | some severity => if failOn.le severity then Outcome.findingsCode else 0
    | none => 0

/-! ## Checks -/

namespace CheckRequest

/-- The configuration in the file that the request names. -/
def baseConfig (request : CheckRequest) (read : FileReader) : Except ConfigError Config :=
  match request.config with
  | some path => Config.load read path
  | none => .ok {}

/-- What the request changes in the configuration. -/
def edits (request : CheckRequest) : List Edit :=
  (if request.sequential then [.parallel false] else []) ++
    request.disabled.map (.addName .disabledRules)

/-- What an analyzer finds in the files of the request. -/
def reportOf (request : CheckRequest) (read : FileReader) (analyzer : Analyzer) : BatchReport :=
  let (units, failures) := loadAll read analyzer.config request.files
  (analyzer.runAll (fun _ => .never) units).withFailures failures

/-- What is found in the files of the request, or why they are not looked at. -/
def report (request : CheckRequest) (read : FileReader) : Except String BatchReport :=
  match request.baseConfig read with
  | .error error => .error error.message
  | .ok config =>
    match Analyzer.ofConfig (config.editAll request.edits) with
    | .error fault => .error fault.display
    | .ok analyzer => .ok (request.reportOf read analyzer)

/-- A report as the request wants it printed. -/
def print (request : CheckRequest) (report : BatchReport) (elapsed : Nat) : Outcome :=
  let exitCode := report.exitCode request.failOn
  match request.format with
  | .text => ⟨exitCode, .lines (report.lines elapsed), report.errorLines⟩
  | .json => ⟨exitCode, .json (report.toJson elapsed), []⟩

end CheckRequest

/-! ## Commands -/

/-- What a command comes to, before it is known how long it took. -/
inductive Answer where
  | refusal (message : String)
  | report (request : CheckRequest) (report : BatchReport)
  | listing (content : List String)
  deriving Repr

/-- The answer as it is printed, with the time in milliseconds. -/
def Answer.outcome (answer : Answer) (elapsed : Nat) : Outcome :=
  match answer with
  | .refusal message => ⟨Outcome.inputCode, .lines [], ["error: " ++ message]⟩
  | .report request found => request.print found elapsed
  | .listing content => ⟨0, .lines content, []⟩

namespace Command

/-- The files that a command reads. -/
def paths : Command → List String
  | .check request => request.config.toList ++ request.files
  | _ => []

/-- What a command comes to. -/
def answer (command : Command) (read : FileReader) : Answer :=
  match command with
  | .check request =>
    match request.report read with
    | .error message => .refusal message
    | .ok report => .report request report
  | .rules => .listing (Rule.all.flatMap Rule.lines)
  | .defaultConfig => .listing ({} : Config).lines

end Command

end StateGuard
