import StateGuard.Config.Error
import StateGuard.State

/-!
# Methods with a known meaning

Methods that call back in one known state, and the sequence operators that filter elements, keep
them or project them.
-/

namespace StateGuard

/-- The first name of one table that also stands in another, as an error. -/
def conflict? (first : String) (names : List String) (second : String) (others : List String) :
    Option ConfigError :=
  (names.find? others.contains).map fun name => .conflictingMethod name first second

/-- Methods whose callbacks run in one known state of the receiver. -/
structure CallContexts where
  /-- Methods with one callback for each state. -/
  dispatchMethods : List String := ["Match", "Switch"]
  /-- Argument names of the callback for the ok state. -/
  okArgumentNames : List String := ["onSuccess", "Some"]
  /-- Argument names of the callback for the other state. -/
  notOkArgumentNames : List String := ["onFailure", "None"]
  /-- Methods whose callbacks run in the ok state only. -/
  okCombinators : List String :=
    ["Map", "Bind", "Tap", "Ensure", "Check", "Execute", "TapIf", "MapIf", "BindIf"]
  /-- Methods whose callbacks run in the other state only. -/
  notOkCombinators : List String :=
    ["MapError", "TapError", "OnFailure", "OnFailureCompensate", "ExecuteNoValue"]
  deriving DecidableEq, Repr, Inhabited

namespace CallContexts

/-- A method with one callback for each state. -/
def isDispatch (contexts : CallContexts) (method : String) : Bool :=
  contexts.dispatchMethods.contains method

/-- The state in which a callback of a dispatch runs. An argument name decides; without one, the
first argument is for the ok state and the second for the other. -/
def dispatchState? (contexts : CallContexts) (name : Option String) (position : Nat) :
    Option State :=
  match name with
  | some name =>
    if contexts.okArgumentNames.contains name then some .ok
    else if contexts.notOkArgumentNames.contains name then some .notOk
    else none
  | none =>
    match position with
    | 0 => some .ok
    | 1 => some .notOk
    | _ => none

/-- The state in which the callbacks of a combinator run. -/
def combinatorState? (contexts : CallContexts) (method : String) : Option State :=
  if contexts.okCombinators.contains method then some .ok
  else if contexts.notOkCombinators.contains method then some .notOk
  else none

/-- The state in which the callback at a position of a call runs. -/
def callbackState? (contexts : CallContexts) (method : String) (name : Option String)
    (position : Nat) : Option State :=
  if contexts.isDispatch method then contexts.dispatchState? name position
  else contexts.combinatorState? method

/-- The first contradiction between the tables. -/
def error? (contexts : CallContexts) : Option ConfigError :=
  [conflict? "ok_combinators" contexts.okCombinators "not_ok_combinators" contexts.notOkCombinators,
   conflict? "dispatch_methods" contexts.dispatchMethods "ok_combinators" contexts.okCombinators,
   conflict? "dispatch_methods" contexts.dispatchMethods "not_ok_combinators"
     contexts.notOkCombinators,
   conflict? "ok_argument_names" contexts.okArgumentNames "not_ok_argument_names"
     contexts.notOkArgumentNames].findSome? id

end CallContexts

/-- Operators on sequences. -/
structure Pipeline where
  /-- Operators that hand each element to a function and deliver its results. -/
  projectionMethods : List String := ["Select", "SelectMany"]
  /-- Operators that deliver only elements with a property. -/
  filterMethods : List String := ["Where", "TakeWhile"]
  /-- Operators that deliver no element they did not receive. -/
  passthroughMethods : List String :=
    ["OrderBy", "OrderByDescending", "ThenBy", "ThenByDescending", "Distinct", "Take", "Skip",
     "SkipWhile", "Reverse", "AsEnumerable", "ToList", "ToArray"]
  deriving DecidableEq, Repr, Inhabited

namespace Pipeline

/-- An operator that projects elements. -/
def isProjection (pipeline : Pipeline) (method : String) : Bool :=
  pipeline.projectionMethods.contains method

/-- An operator that filters elements. -/
def isFilter (pipeline : Pipeline) (method : String) : Bool :=
  pipeline.filterMethods.contains method

/-- An operator that keeps elements as they are. -/
def isPassthrough (pipeline : Pipeline) (method : String) : Bool :=
  pipeline.passthroughMethods.contains method

/-- The first fault of the tables. -/
def error? (pipeline : Pipeline) : Option ConfigError :=
  if pipeline.projectionMethods.isEmpty then
    some (.emptyMethodTable "pipeline.projection_methods")
  else
    [conflict? "projection_methods" pipeline.projectionMethods "filter_methods"
       pipeline.filterMethods,
     conflict? "filter_methods" pipeline.filterMethods "passthrough_methods"
       pipeline.passthroughMethods].findSome? id

end Pipeline

end StateGuard
