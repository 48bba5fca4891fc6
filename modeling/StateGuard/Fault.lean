/-!
# Faults

The errors a run can end in: a kind, a message, and where known a file and a line. The line is
shown only behind a file.
-/

namespace StateGuard

/-- What a fault is about. -/
inductive FaultKind where
  /-- Source text that is not in the checked language. -/
  | parse
  /-- A syntax tree or its tables that do not fit together. -/
  | tree
  /-- A configuration that cannot be used. -/
  | config
  /-- A file that cannot be read. -/
  | io
  /-- A run that was stopped on request. -/
  | cancelled
  /-- A broken expectation of the program itself. -/
  | internal
  deriving DecidableEq, Repr, Inhabited

/-- The word for a kind of fault. -/
def FaultKind.label : FaultKind → String
  | .parse => "parse"
  | .tree => "tree"
  | .config => "config"
  | .io => "io"
  | .cancelled => "cancelled"
  | .internal => "internal"

/-- An error with the place it belongs to. -/
structure Fault where
  kind : FaultKind
  message : String
  file : Option String := none
  line : Option Nat := none
  /-- Whether the fault was raised because of another error. -/
  hasCause : Bool := false
  deriving DecidableEq, Repr, Inhabited

namespace Fault

/-- A fault without a place. -/
def of (kind : FaultKind) (message : String) : Fault := ⟨kind, message, none, none, false⟩

/-- The fault placed in a file. -/
def inFile (fault : Fault) (file : String) : Fault := { fault with file := some file }

/-- The fault placed on a line. -/
def onLine (fault : Fault) (line : Nat) : Fault := { fault with line := some line }

/-- The fault with another error as its cause. -/
def caused (fault : Fault) : Fault := { fault with hasCause := true }

/-- Whether the run was stopped on request. -/
def isCancelled (fault : Fault) : Bool := fault.kind == .cancelled

/-- Kind and message, then the file, then the line of that file. -/
def display (fault : Fault) : String :=
  "[" ++ fault.kind.label ++ "] " ++ fault.message ++
    match fault.file, fault.line with
    | none, _ => ""
    | some file, none => " in " ++ file
    | some file, some line => " in " ++ file ++ ":" ++ toString line

end Fault

end StateGuard
