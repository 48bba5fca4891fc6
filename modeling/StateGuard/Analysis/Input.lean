import StateGuard.Dump.Text
import StateGuard.Text.Caseless

/-!
# Input files

A file whose name ends in `.json` is the dump of a unit; any other file is a source text. How files
are read is left to the caller.
-/

namespace StateGuard

/-- Why a file cannot be read. -/
inductive ReadFailure where
  | notFound
  | isDirectory
  | notDirectory
  | other (reason : String)
  deriving DecidableEq, Repr, Inhabited

/-- The wording of the system for a file that cannot be read. -/
def ReadFailure.message : ReadFailure → String
  | .notFound => "No such file or directory (os error 2)"
  | .isDirectory => "Is a directory (os error 21)"
  | .notDirectory => "Not a directory (os error 20)"
  | .other reason => reason

/-- The fault of a file that cannot be read. -/
def ReadFailure.toFault (failure : ReadFailure) : Fault :=
  (Fault.of .io ("IO error: " ++ failure.message)).caused

/-- The contents of files by path. -/
abbrev FileReader : Type := String → Except ReadFailure String

/-- The parts of a path between slashes, without those that stay where they are. -/
def pathSegments (path : String) : List String :=
  (path.splitOn "/").filter fun segment => segment ≠ "" && segment ≠ "."

/-- The part of a file name after its last dot. A dot at the beginning does not count. -/
def extension? (path : String) : Option String :=
  match (pathSegments path).getLast? with
  | none => none
  | some ".." => none
  | some name =>
    let reversed := name.toList.reverse
    match reversed.dropWhile (· ≠ '.') with
    | [] => none
    | ['.'] => none
    | _ => some (String.ofList (reversed.takeWhile (· ≠ '.')).reverse)

/-- Whether a file is the dump of a unit. -/
def isDump (path : String) : Bool :=
  match extension? path with
  | some extension => Text.equalCaseless extension "json"
  | none => false

namespace SourceUnit

/-- The unit of a dump in a file. A fault without a file is placed in it. -/
def ofDumpFile (path text : String) : Except Fault SourceUnit :=
  (ofDump text).mapError fun error =>
    let fault := error.toFault
    if fault.file.isSome then fault else fault.inFile path

/-- The unit of a file. -/
def load (read : FileReader) (config : Config) (path : String) : Except Fault SourceUnit :=
  if isDump path then
    match read path with
    | .error failure => .error failure.toFault
    | .ok text => ofDumpFile path text
  else
    match read path with
    | .error failure => .error (failure.toFault.inFile path)
    | .ok source => ofSource config path source

end SourceUnit

end StateGuard
