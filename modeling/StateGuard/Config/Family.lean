import StateGuard.Config.Error
import StateGuard.State
import StateGuard.Text.Blank

/-!
# Wrapper families

A family is one wrapper type, perhaps under several names, with the members that read its state.
Families are data, so any library of that shape can be described.
-/

namespace StateGuard

/-- A wrapper type and its members. -/
structure Family where
  /-- The name used in messages. -/
  name : String
  /-- The full names of the generic definitions. -/
  typeNames : List String
  okDiscriminant : String
  notOkDiscriminant : String
  okPayload : Option String := none
  notOkPayload : Option String := none
  okTryAccessor : Option String := none
  notOkTryAccessor : Option String := none
  deriving DecidableEq, Repr, Inhabited

namespace Family

/-- Success with a value or failure with an error. -/
def result : Family where
  name := "Result"
  typeNames := ["CSharpFunctionalExtensions.Result"]
  okDiscriminant := "IsSuccess"
  notOkDiscriminant := "IsFailure"
  okPayload := some "Value"
  notOkPayload := some "Error"
  okTryAccessor := some "TryGetValue"
  notOkTryAccessor := some "TryGetError"

/-- A value or nothing. -/
def maybe : Family where
  name := "Maybe"
  typeNames := ["CSharpFunctionalExtensions.Maybe"]
  okDiscriminant := "HasValue"
  notOkDiscriminant := "HasNoValue"
  okPayload := some "Value"
  okTryAccessor := some "TryGetValue"

/-- The families known without configuration. -/
def defaults : List Family := [result, maybe]

/-- Whether the family goes by a type name. -/
def matchesTypeName (family : Family) (name : String) : Bool := family.typeNames.contains name

/-- The role of a member. -/
def role? (family : Family) (member : String) : Option Role :=
  if member = family.okDiscriminant then some (.discriminant .ok)
  else if member = family.notOkDiscriminant then some (.discriminant .notOk)
  else if some member = family.okPayload then some (.payload .ok)
  else if some member = family.notOkPayload then some (.payload .notOk)
  else if some member = family.okTryAccessor then some (.tryAccessor .ok)
  else if some member = family.notOkTryAccessor then some (.tryAccessor .notOk)
  else none

/-- The boolean that is true in a state. -/
def discriminant (family : Family) : State → String
  | .ok => family.okDiscriminant
  | .notOk => family.notOkDiscriminant

/-- The payload of a state. -/
def payload? (family : Family) : State → Option String
  | .ok => family.okPayload
  | .notOk => family.notOkPayload

/-- The members with a role, in the order in which they are declared. -/
def members (family : Family) : List String :=
  [family.okDiscriminant, family.notOkDiscriminant] ++
    [family.okPayload, family.notOkPayload, family.okTryAccessor,
     family.notOkTryAccessor].reduceOption

/-- The first member that is empty or has occurred before. -/
def memberFlaw? (seen : List String) : List String → Option FamilyFlaw
  | [] => none
  | member :: rest =>
    if member.isEmpty then some .emptyMember
    else if seen.contains member then some (.twoRoles member)
    else memberFlaw? (member :: seen) rest

/-- Whether a name could be the full name of a generic definition. -/
def isDefinitionName (name : String) : Bool :=
  !name.isEmpty && !name.toList.any fun c => Text.isBlank c || c == '<'

/-- What is wrong with a family. -/
def flaw? (family : Family) : Option FamilyFlaw :=
  if Text.isBlankText family.name then some .emptyName
  else if family.typeNames.isEmpty then some .noTypeNames
  else
    match family.typeNames.find? fun name => !isDefinitionName name with
    | some name => some (.notDefinitionName name)
    | none =>
      if family.okDiscriminant.isEmpty || family.notOkDiscriminant.isEmpty then
        some .missingDiscriminant
      else if family.okPayload.isNone && family.notOkPayload.isNone then some .noPayload
      else memberFlaw? [] family.members

/-- The error of a family. A family without a name has a name for this. -/
def error? (family : Family) : Option ConfigError :=
  family.flaw?.map fun flaw =>
    .invalidFamily (if flaw = .emptyName then "<unnamed>" else family.name) flaw

end Family

end StateGuard
