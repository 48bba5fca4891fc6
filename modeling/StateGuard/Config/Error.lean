import StateGuard.Fault
import StateGuard.Text.EditDistance
import StateGuard.Text.Uppercase

/-!
# Errors of the configuration

Why a configuration cannot be used, with the wording of each reason.
-/

namespace StateGuard

/-- What is wrong with the definition of a wrapper family. -/
inductive FamilyFlaw where
  | emptyName
  | noTypeNames
  | notDefinitionName (name : String)
  | missingDiscriminant
  | noPayload
  | emptyMember
  | twoRoles (member : String)
  | asyncWrapper
  deriving DecidableEq, Repr, Inhabited

/-- The wording of a flaw. -/
def FamilyFlaw.message : FamilyFlaw → String
  | .emptyName => "name must not be empty"
  | .noTypeNames => "at least one type name is required"
  | .notDefinitionName name => "'" ++ name ++ "' is not a definition name"
  | .missingDiscriminant => "both discriminants are required"
  | .noPayload => "at least one payload accessor is required"
  | .emptyMember => "member names must not be empty"
  | .twoRoles member => "member '" ++ member ++ "' is assigned two roles"
  | .asyncWrapper => "an async wrapper cannot also be a wrapper family"

/-- Why a configuration cannot be used. -/
inductive ConfigError where
  | range (field value least greatest hint : String)
  | missingVersion
  | unsupportedVersion (found : Nat) (supported : List Nat)
  | noFamilies
  | invalidFamily (family : String) (flaw : FamilyFlaw)
  | duplicateFamily (name : String)
  | duplicateTypeName (typeName first second : String)
  | emptyMethodTable (table : String)
  | emptyMethodName (table : String)
  | conflictingMethod (method first second : String)
  /-- A rule that does not exist, with the code nearest to it. -/
  | unknownRule (rule : String) (nearest : Option String)
  | unreadable (reason : String)
  /-- A text that is not a configuration at all. -/
  | malformed
  deriving DecidableEq, Repr, Inhabited

namespace ConfigError

/-- The error for a rule that is not among the known codes. Codes are upper case, and so is the
rule when the nearest code is looked for. -/
def unknownRuleAmong (rule : String) (known : List String) : ConfigError :=
  .unknownRule rule (Text.nearest (Text.upper rule) known)

/-- The wording of a configuration error. -/
def message : ConfigError → String
  | .range field value least greatest hint =>
    "'" ++ field ++ "' is " ++ value ++ ", expected " ++ least ++ "..=" ++ greatest ++ ". " ++ hint
  | .missingVersion =>
    "Guard configuration has no 'version' field. Start the file with 'version: 1'."
  | .unsupportedVersion found supported =>
    "Unsupported configuration version " ++ toString found ++ ". Supported versions: " ++
      String.intercalate ", " (supported.map toString)
  | .noFamilies => "At least one wrapper family must be configured"
  | .invalidFamily family flaw => "Invalid wrapper family '" ++ family ++ "': " ++ flaw.message
  | .duplicateFamily name => "Wrapper family '" ++ name ++ "' is defined more than once"
  | .duplicateTypeName typeName first second =>
    "Type '" ++ typeName ++ "' is claimed by both '" ++ first ++ "' and '" ++ second ++ "'"
  | .emptyMethodTable table => "Method table '" ++ table ++ "' must not be empty"
  | .emptyMethodName table => "Method table '" ++ table ++ "' contains an empty method name"
  | .conflictingMethod method first second =>
    "Method '" ++ method ++ "' appears in both '" ++ first ++ "' and '" ++ second ++ "'"
  | .unknownRule rule nearest =>
    "Unknown rule '" ++ rule ++ "' in disabled_rules. " ++
      match nearest with
      | some code => "Did you mean '" ++ code ++ "'?"
      | none => "No rules available"
  | .unreadable reason => "Cannot read guard configuration: " ++ reason
  | .malformed => "Malformed guard configuration"

/-- The fault of a configuration that is found unusable when it is put to use. -/
def toFault (error : ConfigError) : Fault := (Fault.of .config error.message).caused

end ConfigError

end StateGuard
