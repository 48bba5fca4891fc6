import StateGuard.Config.Basic
import StateGuard.Yaml.Decode
import StateGuard.Yaml.Reader
import StateGuard.Yaml.Writer

/-!
# Configurations as documents

A configuration is kept in a YAML document with a version and up to seven sections. A section that
is left out keeps its default; writing spells out every section.
-/

namespace StateGuard

/-- The version of the document format. -/
def schemaVersion : Nat := 1

/-! ## Writing -/

/-- A list of texts. -/
def Yaml.ofTexts (texts : List String) : Yaml := .seq (texts.map Yaml.ofText)

namespace Family

/-- A family as YAML. Absent members are left out. -/
def toYaml (family : Family) : Yaml :=
  let optional (key : String) (value : Option String) : List (String × Yaml) :=
    (value.map fun text => (key, Yaml.ofText text)).toList
  .map <| [("name", .ofText family.name), ("type_names", .ofTexts family.typeNames),
      ("ok_discriminant", .ofText family.okDiscriminant),
      ("not_ok_discriminant", .ofText family.notOkDiscriminant)] ++
    optional "ok_payload" family.okPayload ++ optional "not_ok_payload" family.notOkPayload ++
    optional "ok_try_accessor" family.okTryAccessor ++
    optional "not_ok_try_accessor" family.notOkTryAccessor

end Family

/-- The methods with callbacks as YAML. -/
def CallContexts.toYaml (contexts : CallContexts) : Yaml :=
  .map [("dispatch_methods", .ofTexts contexts.dispatchMethods),
    ("ok_argument_names", .ofTexts contexts.okArgumentNames),
    ("not_ok_argument_names", .ofTexts contexts.notOkArgumentNames),
    ("ok_combinators", .ofTexts contexts.okCombinators),
    ("not_ok_combinators", .ofTexts contexts.notOkCombinators)]

/-- The operators on sequences as YAML. -/
def Pipeline.toYaml (pipeline : Pipeline) : Yaml :=
  .map [("projection_methods", .ofTexts pipeline.projectionMethods),
    ("filter_methods", .ofTexts pipeline.filterMethods),
    ("passthrough_methods", .ofTexts pipeline.passthroughMethods)]

/-- The switches as YAML. -/
def Options.toYaml (options : Options) : Yaml :=
  .map [("cross_lambda_boundaries", .ofBool options.crossLambdaBoundaries),
    ("parallel", .ofBool options.parallel), ("threads", .ofNat options.threads)]

namespace Config

/-- The sections of a configuration, in order. -/
def sections (config : Config) : List (String × Yaml) :=
  [("families", .seq (config.families.map Family.toYaml)),
    ("async_wrappers", .ofTexts config.asyncWrappers),
    ("non_throwing_factories", .ofTexts config.nonThrowingFactories),
    ("call_contexts", config.callContexts.toYaml), ("pipeline", config.pipeline.toYaml),
    ("analysis", config.analysis.toYaml), ("disabled_rules", .ofTexts config.disabledRules)]

/-- A configuration as YAML. -/
def toYaml (config : Config) : Yaml := .map (("version", .ofNat schemaVersion) :: config.sections)

/-- The lines of the document of a configuration. -/
def lines (config : Config) : List String := config.toYaml.lines

/-- The document of a configuration. -/
def write (config : Config) : String := config.toYaml.write

end Config

/-! ## Reading -/

/-- A list of texts. -/
def Yaml.texts? : Yaml → Option (List String) := Yaml.list? Yaml.text?

namespace Family

/-- The fields of a family. -/
def fieldNames : List String :=
  ["name", "type_names", "ok_discriminant", "not_ok_discriminant", "ok_payload", "not_ok_payload",
   "ok_try_accessor", "not_ok_try_accessor"]

/-- A family of YAML. -/
def ofYaml? (value : Yaml) : Option Family := do
  let fields ← value.fields? fieldNames
  let optional (key : String) := fields.withDefault? key (Yaml.optional? Yaml.text?) none
  return {
    name := ← fields.required? "name" Yaml.text?
    typeNames := ← fields.required? "type_names" Yaml.texts?
    okDiscriminant := ← fields.required? "ok_discriminant" Yaml.text?
    notOkDiscriminant := ← fields.required? "not_ok_discriminant" Yaml.text?
    okPayload := ← optional "ok_payload"
    notOkPayload := ← optional "not_ok_payload"
    okTryAccessor := ← optional "ok_try_accessor"
    notOkTryAccessor := ← optional "not_ok_try_accessor" }

end Family

namespace CallContexts

/-- The fields of the methods with callbacks. -/
def fieldNames : List String :=
  ["dispatch_methods", "ok_argument_names", "not_ok_argument_names", "ok_combinators",
   "not_ok_combinators"]

/-- The methods with callbacks of YAML. Missing tables keep their defaults. -/
def ofYaml? (value : Yaml) : Option CallContexts := do
  let fields ← value.fields? fieldNames
  let default : CallContexts := {}
  return {
    dispatchMethods := ← fields.withDefault? "dispatch_methods" Yaml.texts? default.dispatchMethods
    okArgumentNames := ← fields.withDefault? "ok_argument_names" Yaml.texts? default.okArgumentNames
    notOkArgumentNames :=
      ← fields.withDefault? "not_ok_argument_names" Yaml.texts? default.notOkArgumentNames
    okCombinators := ← fields.withDefault? "ok_combinators" Yaml.texts? default.okCombinators
    notOkCombinators :=
      ← fields.withDefault? "not_ok_combinators" Yaml.texts? default.notOkCombinators }

end CallContexts

namespace Pipeline

/-- The fields of the operators on sequences. -/
def fieldNames : List String := ["projection_methods", "filter_methods", "passthrough_methods"]

/-- The operators on sequences of YAML. Missing tables keep their defaults. -/
def ofYaml? (value : Yaml) : Option Pipeline := do
  let fields ← value.fields? fieldNames
  let default : Pipeline := {}
  return {
    projectionMethods :=
      ← fields.withDefault? "projection_methods" Yaml.texts? default.projectionMethods
    filterMethods := ← fields.withDefault? "filter_methods" Yaml.texts? default.filterMethods
    passthroughMethods :=
      ← fields.withDefault? "passthrough_methods" Yaml.texts? default.passthroughMethods }

end Pipeline

namespace Options

/-- The fields of the switches. -/
def fieldNames : List String := ["cross_lambda_boundaries", "parallel", "threads"]

/-- The switches of YAML. Missing ones keep their defaults. -/
def ofYaml? (value : Yaml) : Option Options := do
  let fields ← value.fields? fieldNames
  let default : Options := {}
  return {
    crossLambdaBoundaries :=
      ← fields.withDefault? "cross_lambda_boundaries" Yaml.bool? default.crossLambdaBoundaries
    parallel := ← fields.withDefault? "parallel" Yaml.bool? default.parallel
    threads := ← fields.withDefault? "threads" (Yaml.nat? (Word.capacity 64)) default.threads }

end Options

namespace Config

/-- The fields of a document. -/
def fieldNames : List String :=
  ["version", "families", "async_wrappers", "non_throwing_factories", "call_contexts", "pipeline",
   "analysis", "disabled_rules"]

/-- The version of a document and its configuration, before either has been checked. -/
def ofYaml? (value : Yaml) : Option (Option Nat × Config) := do
  let fields ← value.fields? fieldNames
  let overlay {α : Type} (key : String) (decode : Yaml → Option α) (default : α) : Option α :=
    (fields.withDefault? key (Yaml.optional? decode) none).map (·.getD default)
  let default : Config := {}
  let version ← fields.withDefault? "version" (Yaml.optional? (Yaml.nat? (Word.capacity 32))) none
  return (version, {
    families := ← overlay "families" (Yaml.list? Family.ofYaml?) default.families
    asyncWrappers := ← overlay "async_wrappers" Yaml.texts? default.asyncWrappers
    nonThrowingFactories :=
      ← overlay "non_throwing_factories" Yaml.texts? default.nonThrowingFactories
    callContexts := ← overlay "call_contexts" CallContexts.ofYaml? default.callContexts
    pipeline := ← overlay "pipeline" Pipeline.ofYaml? default.pipeline
    analysis := ← overlay "analysis" Options.ofYaml? default.analysis
    disabledRules := ← overlay "disabled_rules" Yaml.texts? default.disabledRules })

/-- The configuration of a document: of the right shape, of the supported version, and without a
fault. -/
def parse (document : String) : Except ConfigError Config :=
  match (Yaml.read? document).bind ofYaml? with
  | none => .error .malformed
  | some (none, _) => .error .missingVersion
  | some (some version, config) =>
    if version = schemaVersion then config.validate
    else .error (.unsupportedVersion version [schemaVersion])

end Config

end StateGuard
