import StateGuard.Config.Basic
import StateGuard.TypeRef

/-!
# Classification of types

A type is a wrapper of some family, an asynchronous wrapper around one, or neither. Families are
named by their positions in the configuration.
-/

namespace StateGuard

/-- What a type is to the analysis. -/
inductive Classification where
  /-- A wrapper of a family. -/
  | wrapper (family : Nat)
  /-- An asynchronous wrapper around a wrapper of a family. -/
  | asyncWrapper (family : Nat)
  | unrelated
  deriving DecidableEq, Repr, Inhabited

namespace Classification

/-- The family of a wrapper. -/
def wrapper? : Classification → Option Nat
  | .wrapper family => some family
  | _ => none

/-- The family of what an asynchronous wrapper wraps. -/
def asyncWrapper? : Classification → Option Nat
  | .asyncWrapper family => some family
  | _ => none

end Classification

namespace Config

/-- The first family that goes by a type name. -/
def familyIndex? (config : Config) (typeName : String) : Option Nat :=
  config.families.findIdx? (·.matchesTypeName typeName)

/-- The role of a member in a family given by position. -/
def role? (config : Config) (family : Nat) (member : String) : Option Role :=
  config.families[family]?.bind (·.role? member)

/-- The classification of a type. Only constructed generic types with one argument count. -/
def classify (config : Config) (type : TypeRef) : Classification :=
  match type.singleArg? with
  | none => .unrelated
  | some arg =>
    match config.familyIndex? type.name with
    | some family => .wrapper family
    | none =>
      if config.isAsyncWrapper type.name && arg.singleArg?.isSome then
        match config.familyIndex? arg.name with
        | some family => .asyncWrapper family
        | none => .unrelated
      else .unrelated

end Config

end StateGuard
