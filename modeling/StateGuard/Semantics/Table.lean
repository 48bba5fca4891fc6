import StateGuard.TypeRef

/-!
# Semantic tables

Types and symbols recorded for nodes by number. A table is written and read on its own, so its
numbers need not be those of any tree.
-/

namespace StateGuard

/-- Types and symbols by node number, each number at most once. -/
structure Table where
  types : List (Nat × TypeRef) := []
  symbols : List (Nat × String) := []
  deriving DecidableEq, Repr, Inhabited

namespace Table

/-- Record an entry in place of an earlier one. -/
def put {α : Type} (entries : List (Nat × α)) (key : Nat) (value : α) : List (Nat × α) :=
  (key, value) :: entries.filter (·.1 ≠ key)

/-- Record the type of a node. -/
def setType (table : Table) (node : Nat) (type : TypeRef) : Table :=
  { table with types := put table.types node type }

/-- Record the symbol of a node. -/
def setSymbol (table : Table) (node : Nat) (symbol : String) : Table :=
  { table with symbols := put table.symbols node symbol }

/-- The type of a node. -/
def typeOf (table : Table) (node : Nat) : Option TypeRef := table.types.lookup node

/-- The symbol of a node. -/
def symbolOf (table : Table) (node : Nat) : Option String := table.symbols.lookup node

/-- The nodes with an entry. -/
def nodes (table : Table) : List Nat := table.types.map (·.1) ++ table.symbols.map (·.1)

/-- The least node with an entry that a tree of the given size does not have. -/
def outOfRange? (table : Table) (size : Nat) : Option Nat :=
  (table.nodes.filter (size ≤ ·)).min?

end Table

end StateGuard
