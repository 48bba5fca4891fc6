import StateGuard.Config.Basic

/-!
# Editing configurations

Changes to a configuration, one at a time. An edit never asks whether the result is acceptable, so
several edits may pass through a configuration that is not.
-/

namespace StateGuard

/-- The lists of names in a configuration. -/
inductive NameTable where
  | asyncWrappers
  | nonThrowingFactories
  | disabledRules
  | dispatchMethods
  | okArgumentNames
  | notOkArgumentNames
  | okCombinators
  | notOkCombinators
  | projectionMethods
  | filterMethods
  | passthroughMethods
  deriving DecidableEq, Repr, Inhabited

namespace NameTable

/-- Every table. -/
def all : List NameTable :=
  [.asyncWrappers, .nonThrowingFactories, .disabledRules, .dispatchMethods, .okArgumentNames,
   .notOkArgumentNames, .okCombinators, .notOkCombinators, .projectionMethods, .filterMethods,
   .passthroughMethods]

/-- The key of a table in a document. -/
def label : NameTable → String
  | .asyncWrappers => "async_wrappers"
  | .nonThrowingFactories => "non_throwing_factories"
  | .disabledRules => "disabled_rules"
  | .dispatchMethods => "dispatch_methods"
  | .okArgumentNames => "ok_argument_names"
  | .notOkArgumentNames => "not_ok_argument_names"
  | .okCombinators => "ok_combinators"
  | .notOkCombinators => "not_ok_combinators"
  | .projectionMethods => "projection_methods"
  | .filterMethods => "filter_methods"
  | .passthroughMethods => "passthrough_methods"

/-- The table with a key. -/
def ofLabel? (label : String) : Option NameTable := all.find? (·.label == label)

end NameTable

/-- A change to a configuration. -/
inductive Edit where
  | addFamily (family : Family)
  | clearFamilies
  | crossLambdaBoundaries (value : Bool)
  | parallel (value : Bool)
  | threads (value : Nat)
  /-- Put a name at the end of a table. -/
  | addName (table : NameTable) (name : String)
  /-- Put a list in place of a table. -/
  | setTable (table : NameTable) (names : List String)
  deriving DecidableEq, Repr, Inhabited

namespace Config

/-- A configuration with one of its tables changed. -/
def updateTable (config : Config) (table : NameTable) (f : List String → List String) : Config :=
  let contexts := config.callContexts
  let pipeline := config.pipeline
  match table with
  | .asyncWrappers => { config with asyncWrappers := f config.asyncWrappers }
  | .nonThrowingFactories => { config with nonThrowingFactories := f config.nonThrowingFactories }
  | .disabledRules => { config with disabledRules := f config.disabledRules }
  | .dispatchMethods => { config with
      callContexts := { contexts with dispatchMethods := f contexts.dispatchMethods } }
  | .okArgumentNames => { config with
      callContexts := { contexts with okArgumentNames := f contexts.okArgumentNames } }
  | .notOkArgumentNames => { config with
      callContexts := { contexts with notOkArgumentNames := f contexts.notOkArgumentNames } }
  | .okCombinators => { config with
      callContexts := { contexts with okCombinators := f contexts.okCombinators } }
  | .notOkCombinators => { config with
      callContexts := { contexts with notOkCombinators := f contexts.notOkCombinators } }
  | .projectionMethods => { config with
      pipeline := { pipeline with projectionMethods := f pipeline.projectionMethods } }
  | .filterMethods => { config with
      pipeline := { pipeline with filterMethods := f pipeline.filterMethods } }
  | .passthroughMethods => { config with
      pipeline := { pipeline with passthroughMethods := f pipeline.passthroughMethods } }

/-- A configuration after an edit. -/
def edit (config : Config) : Edit → Config
  | .addFamily family => { config with families := config.families ++ [family] }
  | .clearFamilies => { config with families := [] }
  | .crossLambdaBoundaries value =>
    { config with analysis := { config.analysis with crossLambdaBoundaries := value } }
  | .parallel value => { config with analysis := { config.analysis with parallel := value } }
  | .threads value => { config with analysis := { config.analysis with threads := value } }
  | .addName table name => config.updateTable table (· ++ [name])
  | .setTable table names => config.updateTable table fun _ => names

/-- A configuration after several edits. -/
def editAll (config : Config) (edits : List Edit) : Config := edits.foldl edit config

end Config

end StateGuard
