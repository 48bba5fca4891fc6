import StateGuard.Rule

/-!
# Commands

What the program can be asked to do, and how the words of a command line ask for it. Options may
stand before, between and after the files; what follows `--` is a file whatever it looks like.
-/

namespace StateGuard

/-- How a report is printed. -/
inductive Format where
  | text
  | json
  deriving DecidableEq, Repr, Inhabited

/-- The format that a word names. -/
def Format.ofString? : String → Option Format
  | "text" => some .text
  | "json" => some .json
  | _ => none

/-- A request to check files. -/
structure CheckRequest where
  /-- The file of the configuration. -/
  config : Option String := none
  format : Format := .text
  /-- The least severity for which the check fails. -/
  failOn : Severity := .warning
  /-- Whether files are checked one at a time. -/
  sequential : Bool := false
  /-- Codes of rules to leave out. -/
  disabled : List String := []
  files : List String := []
  deriving DecidableEq, Repr, Inhabited

/-- What the program can be asked to do. -/
inductive Command where
  | check (request : CheckRequest)
  /-- List the rules. -/
  | rules
  /-- Print the configuration that is used without a file. -/
  | defaultConfig
  deriving DecidableEq, Repr, Inhabited

namespace CommandLine

/-! ## Options -/

/-- The options of a check. -/
inductive Setting where
  | config
  | format
  | failOn
  | sequential
  | disable
  deriving DecidableEq, Repr, Inhabited

namespace Setting

/-- The word for an option. -/
def label : Setting → String
  | .config => "config"
  | .format => "format"
  | .failOn => "fail-on"
  | .sequential => "sequential"
  | .disable => "disable"

/-- Whether an option needs a value. -/
def takesValue : Setting → Bool
  | .sequential => false
  | _ => true

/-- Whether an option may be given more than once. -/
def isRepeatable : Setting → Bool
  | .disable => true
  | _ => false

/-- Every option. -/
def all : List Setting := [.config, .format, .failOn, .sequential, .disable]

/-- The option with a word. -/
def ofWord? (word : String) : Option Setting := all.find? (·.label == word)

/-- The option with a letter. -/
def ofLetter? : Char → Option Setting
  | 'c' => some .config
  | 'f' => some .format
  | _ => none

end Setting

/-- Why a command line cannot be understood. -/
inductive UsageError where
  | noCommand
  | unknownCommand (word : String)
  | unknownOption (word : String)
  | missingValue (setting : Setting)
  | unexpectedValue (setting : Setting)
  | invalidValue (setting : Setting) (value : String)
  | repeated (setting : Setting)
  | unexpectedArgument (word : String)
  | emptyPath
  | noFiles
  deriving DecidableEq, Repr, Inhabited

/-- The wording of a usage error. -/
def UsageError.message : UsageError → String
  | .noCommand => "a command is required: check, rules or default-config"
  | .unknownCommand word => "unknown command '" ++ word ++ "'"
  | .unknownOption word => "unknown option '" ++ word ++ "'"
  | .missingValue setting => "--" ++ setting.label ++ " needs a value"
  | .unexpectedValue setting => "--" ++ setting.label ++ " takes no value"
  | .invalidValue setting value =>
    "'" ++ value ++ "' is not a value of --" ++ setting.label
  | .repeated setting => "--" ++ setting.label ++ " is given more than once"
  | .unexpectedArgument word => "unexpected argument '" ++ word ++ "'"
  | .emptyPath => "a path must not be empty"
  | .noFiles => "no files to check"

/-! ## Words -/

/-- What a word of the command line is. -/
inductive Word where
  /-- An option, perhaps with a value in the same word. -/
  | setting (setting : Setting) (value : Option String)
  | unknown
  /-- The end of the options. -/
  | separator
  | file
  deriving DecidableEq, Repr, Inhabited

/-- What a word is, by its characters. -/
def Word.ofChars : List Char → Word
  | ['-', '-'] => .separator
  | '-' :: '-' :: body =>
    match Setting.ofWord? (String.ofList (body.takeWhile (· ≠ '='))) with
    | none => .unknown
    | some option => .setting option ((body.dropWhile (· ≠ '=')).tail?.map String.ofList)
  | '-' :: letter :: rest =>
    match Setting.ofLetter? letter, rest with
    | none, _ => .unknown
    | some option, [] => .setting option none
    | some option, '=' :: value => .setting option (some (String.ofList value))
    | some option, value => .setting option (some (String.ofList value))
  | _ => .file

/-- What a word is. -/
def Word.ofString (word : String) : Word := ofChars word.toList

/-- An option with its value, or a file. -/
inductive Item where
  | setting (setting : Setting) (value : String)
  | file (path : String)
  deriving DecidableEq, Repr, Inhabited

/-- The options and files of the words after `check`. A word that is not a file is never the value
of an option before it. -/
def items : List String → Except UsageError (List Item)
  | [] => return []
  | word :: rest =>
    match Word.ofString word with
    | .file => return .file word :: (← items rest)
    | .separator => return rest.map .file
    | .unknown => throw (.unknownOption word)
    | .setting setting (some value) =>
      if setting.takesValue then return .setting setting value :: (← items rest)
      else throw (.unexpectedValue setting)
    | .setting setting none =>
      if setting.takesValue then
        match rest with
        | [] => throw (.missingValue setting)
        | value :: rest =>
          if Word.ofString value = .file then return .setting setting value :: (← items rest)
          else throw (.missingValue setting)
      else return .setting setting "" :: (← items rest)

/-! ## Requests -/

/-- The request with one more option or file. -/
def apply (request : CheckRequest) : Item → Except UsageError CheckRequest
  | .file path =>
    if path = "" then throw .emptyPath else return { request with files := request.files ++ [path] }
  | .setting .config value =>
    if value = "" then throw .emptyPath else return { request with config := some value }
  | .setting .format value =>
    match Format.ofString? value with
    | some format => return { request with format := format }
    | none => throw (.invalidValue .format value)
  | .setting .failOn value =>
    match Severity.ofString value with
    | .ok severity => return { request with failOn := severity }
    | .error _ => throw (.invalidValue .failOn value)
  | .setting .sequential _ => return { request with sequential := true }
  | .setting .disable value => return { request with disabled := request.disabled ++ [value] }

/-- How often an option is given. -/
def occurrences (setting : Setting) (items : List Item) : Nat :=
  items.countP fun
    | .setting other _ => other == setting
    | .file _ => false

/-- The request of a list of options and files. -/
def request (items : List Item) : Except UsageError CheckRequest :=
  match Setting.all.find? fun s => !s.isRepeatable && occurrences s items > 1 with
  | some setting => throw (.repeated setting)
  | none => do
    let request ← items.foldlM apply {}
    if request.files.isEmpty then throw .noFiles else return request

end CommandLine

/-- A command without options. -/
def Command.alone (command : Command) : List String → Except CommandLine.UsageError Command
  | [] => return command
  | ["--"] => return command
  | "--" :: word :: _ => throw (.unexpectedArgument word)
  | word :: _ => throw (.unexpectedArgument word)

/-- The command of a command line. -/
def Command.parse : List String → Except CommandLine.UsageError Command
  | [] => throw .noCommand
  | "check" :: words => do return .check (← CommandLine.request (← CommandLine.items words))
  | "rules" :: words => Command.rules.alone words
  | "default-config" :: words => Command.defaultConfig.alone words
  | word :: _ => throw (.unknownCommand word)

end StateGuard
