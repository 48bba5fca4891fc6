import StateGuard.Semantics.Table

/-!
# Oracles

What is known about the nodes of one tree: the static type of an expression, and the symbol of the
declaration that a name stands for.
-/

namespace StateGuard

/-- Types and symbols of the nodes of a tree with `n` nodes. -/
structure Oracle (n : Nat) where
  types : Vector (Option TypeRef) n
  symbols : Vector (Option String) n

namespace Oracle

variable {n : Nat}

/-- Nothing is known. -/
def empty (n : Nat) : Oracle n := ⟨Vector.replicate n none, Vector.replicate n none⟩

/-- The type of a node. -/
def typeOf (oracle : Oracle n) (i : Fin n) : Option TypeRef := oracle.types[i]

/-- The symbol of a node. -/
def symbolOf (oracle : Oracle n) (i : Fin n) : Option String := oracle.symbols[i]

/-- Record the type of a node. -/
def setType (oracle : Oracle n) (i : Fin n) (type : TypeRef) : Oracle n :=
  { oracle with types := oracle.types.set i (some type) }

/-- Record the symbol of a node. -/
def setSymbol (oracle : Oracle n) (i : Fin n) (symbol : String) : Oracle n :=
  { oracle with symbols := oracle.symbols.set i (some symbol) }

/-- Whether two nodes are known to stand for the same declaration. -/
def sameSymbol (oracle : Oracle n) (a b : Fin n) : Bool :=
  match oracle.symbolOf a, oracle.symbolOf b with
  | some s, some t => s == t
  | _, _ => false

/-- What a table says about the nodes of a tree. -/
def ofTable (n : Nat) (table : Table) : Oracle n :=
  ⟨Vector.ofFn fun i => table.typeOf i, Vector.ofFn fun i => table.symbolOf i⟩

/-- The table of all that is known. -/
def toTable (oracle : Oracle n) : Table where
  types := (List.finRange n).filterMap fun i => (oracle.typeOf i).map (i.val, ·)
  symbols := (List.finRange n).filterMap fun i => (oracle.symbolOf i).map (i.val, ·)

/-! ## One equation for each operation -/

@[simp]
theorem typeOf_empty (i : Fin n) : (empty n).typeOf i = none := by simp [empty, typeOf]

@[simp]
theorem symbolOf_empty (i : Fin n) : (empty n).symbolOf i = none := by simp [empty, symbolOf]

theorem typeOf_setType (oracle : Oracle n) (i j : Fin n) (type : TypeRef) :
    (oracle.setType i type).typeOf j = if i = j then some type else oracle.typeOf j := by
  simp [setType, typeOf, Vector.getElem_set, Fin.ext_iff]

@[simp]
theorem symbolOf_setType (oracle : Oracle n) (i j : Fin n) (type : TypeRef) :
    (oracle.setType i type).symbolOf j = oracle.symbolOf j := rfl

theorem symbolOf_setSymbol (oracle : Oracle n) (i j : Fin n) (symbol : String) :
    (oracle.setSymbol i symbol).symbolOf j = if i = j then some symbol else oracle.symbolOf j := by
  simp [setSymbol, symbolOf, Vector.getElem_set, Fin.ext_iff]

@[simp]
theorem typeOf_setSymbol (oracle : Oracle n) (i j : Fin n) (symbol : String) :
    (oracle.setSymbol i symbol).typeOf j = oracle.typeOf j := rfl

@[simp]
theorem typeOf_ofTable (table : Table) (i : Fin n) :
    (ofTable n table).typeOf i = table.typeOf i := by
  simp [ofTable, typeOf]

@[simp]
theorem symbolOf_ofTable (table : Table) (i : Fin n) :
    (ofTable n table).symbolOf i = table.symbolOf i := by
  simp [ofTable, symbolOf]

end Oracle

end StateGuard
