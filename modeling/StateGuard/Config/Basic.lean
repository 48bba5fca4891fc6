import StateGuard.Config.Family
import StateGuard.Config.Methods
import StateGuard.Rule

/-!
# Configuration

Everything a run can be told: the wrapper families, the methods with a known meaning, switches, and
the rules to leave out. `Config.error?` is the first reason not to accept a configuration.
-/

namespace StateGuard

/-- Switches of the analysis and of runs over many files. -/
structure Options where
  /-- Whether a guard outside a lambda also protects what the lambda reads. -/
  crossLambdaBoundaries : Bool := false
  /-- Whether files may be analysed at the same time. -/
  parallel : Bool := true
  /-- The number of workers; zero leaves it to the machine. -/
  threads : Nat := 0
  deriving DecidableEq, Repr, Inhabited

namespace Options

/-- The largest number of workers. -/
def maxThreads : Nat := 512

/-- The number of workers on a machine with the given number of processors. -/
def workers (options : Options) (processors : Nat) : Nat :=
  if options.threads = 0 then processors else options.threads

/-- The first switch out of range. -/
def error? (options : Options) : Option ConfigError :=
  if options.threads > maxThreads then
    some (.range "analysis.threads" (toString options.threads) "0" (toString maxThreads)
      "Use 0 for one thread per CPU")
  else none

end Options

/-- The configuration of a run. -/
structure Config where
  families : List Family := Family.defaults
  /-- The full names of the wrappers around a value that is not there yet. -/
  asyncWrappers : List String :=
    ["System.Threading.Tasks.Task", "System.Threading.Tasks.ValueTask"]
  /-- Methods whose results may be read directly. -/
  nonThrowingFactories : List String := ["TryCreate"]
  callContexts : CallContexts := {}
  pipeline : Pipeline := {}
  analysis : Options := {}
  /-- Codes of rules to leave out. -/
  disabledRules : List String := []
  deriving DecidableEq, Repr, Inhabited

namespace Config

/-- A rule that is not left out. Codes are compared without case. -/
def isRuleEnabled (config : Config) (code : String) : Bool :=
  !config.disabledRules.any fun rule => Text.equalCaseless rule code

/-- A method whose results may be read directly. -/
def isNonThrowingFactory (config : Config) (method : String) : Bool :=
  config.nonThrowingFactories.contains method

/-- A wrapper around a value that is not there yet. -/
def isAsyncWrapper (config : Config) (name : String) : Bool := config.asyncWrappers.contains name

/-- A summary in one line. -/
def describe (config : Config) : String :=
  let word (b : Bool) : String := if b then "true" else "false"
  "families=[" ++ String.intercalate ", " (config.families.map (·.name)) ++
    "] async_wrappers=" ++ toString config.asyncWrappers.length ++
    " cross_lambda=" ++ word config.analysis.crossLambdaBoundaries ++
    " parallel=" ++ word config.analysis.parallel ++
    " disabled=[" ++ String.intercalate ", " config.disabledRules ++ "]"

/-! ## Acceptance -/

/-- What a family has in common with an earlier one. -/
def familyClash? (earlier family : Family) : Option ConfigError :=
  if earlier.name = family.name then some (.duplicateFamily family.name)
  else
    (family.typeNames.find? earlier.matchesTypeName).map fun name =>
      .duplicateTypeName name earlier.name family.name

/-- The first clash of a family with one before it. -/
def firstClash? (earlier : List Family) : List Family → Option ConfigError
  | [] => none
  | family :: rest =>
    match earlier.findSome? (familyClash? · family) with
    | some error => some error
    | none => firstClash? (earlier ++ [family]) rest

/-- The first fault of the list of families. -/
def familiesError? (families : List Family) : Option ConfigError :=
  if families.isEmpty then some .noFamilies
  else
    match families.findSome? Family.error? with
    | some error => some error
    | none => firstClash? [] families

/-- An asynchronous wrapper that is also a family. -/
def asyncError? (config : Config) : Option ConfigError :=
  (config.asyncWrappers.find? fun name => config.families.any (·.matchesTypeName name)).map
    fun name => .invalidFamily name .asyncWrapper

/-- A factory without a name. -/
def factoryError? (config : Config) : Option ConfigError :=
  if config.nonThrowingFactories.any String.isEmpty then
    some (.emptyMethodName "non_throwing_factories")
  else none

/-- The first rule to leave out that does not exist. -/
def ruleError? (config : Config) : Option ConfigError :=
  (config.disabledRules.find? fun rule => !Rule.codes.any (Text.equalCaseless · rule)).map
    fun rule => .unknownRuleAmong rule Rule.codes

/-- The first reason not to accept a configuration. -/
def error? (config : Config) : Option ConfigError :=
  [familiesError? config.families, config.asyncError?, config.factoryError?,
   config.callContexts.error?, config.pipeline.error?, config.analysis.error?,
   config.ruleError?].findSome? id

/-- Accept a configuration that has no fault. -/
def validate (config : Config) : Except ConfigError Config :=
  match config.error? with
  | some error => .error error
  | none => .ok config

end Config

end StateGuard
