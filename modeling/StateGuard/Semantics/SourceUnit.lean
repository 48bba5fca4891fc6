import StateGuard.Semantics.Binder
import StateGuard.Source.Program

/-!
# Units

A unit is what one file contributes to a run: its syntax tree and what is known about its nodes.
-/

namespace StateGuard

/-- A tree and its oracle. -/
structure SourceUnit where
  tree : Tree
  oracle : Oracle tree.size

namespace SourceUnit

/-- The unit of a source text: parsed with the imports of the configuration, and bound. -/
def ofSource (config : Config) (file source : String) : Except Fault SourceUnit := do
  let tree ← Tree.ofSource (Imports.ofConfig config).resolve file source
  return ⟨tree, tree.bind config⟩

/-- The unit with its oracle computed anew. -/
def rebind (unit : SourceUnit) (config : Config) : SourceUnit :=
  ⟨unit.tree, unit.tree.bind config⟩

end SourceUnit

end StateGuard
