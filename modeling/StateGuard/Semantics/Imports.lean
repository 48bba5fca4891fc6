import StateGuard.Config.Basic
import StateGuard.TypeRef

/-!
# Imported names

Types that a source text may write without their namespaces. The first type imported under a simple
name keeps it.
-/

namespace StateGuard

/-- The imported types, by simple name. -/
structure Imports where
  byName : List (String × String) := []
  deriving DecidableEq, Repr, Inhabited

namespace Imports

/-- The full name of a simple name. -/
def lookup (imports : Imports) (name : String) : Option String := imports.byName.lookup name

/-- Import a type by its full name, unless its simple name is taken. -/
def add (imports : Imports) (fullName : String) : Imports :=
  let name := TypeRef.lastSegment fullName
  match imports.lookup name with
  | some _ => imports
  | none => ⟨imports.byName ++ [(name, fullName)]⟩

/-- The full name of a type: that of the import, or else the name itself. -/
def resolve (imports : Imports) (name : String) : String := (imports.lookup name).getD name

/-- The full name of the most general sequence. -/
def sequence : String := "System.Collections.Generic.IEnumerable"

/-- The sequence types that are always imported. -/
def sequences : List String :=
  [sequence, "System.Collections.Generic.List", "System.Collections.Generic.IReadOnlyList",
   "System.Linq.IQueryable"]

/-- The types of the families, then the asynchronous wrappers, then the sequences. -/
def ofConfig (config : Config) : Imports :=
  (config.families.flatMap (·.typeNames) ++ config.asyncWrappers ++ sequences).foldl add {}

end Imports

end StateGuard
