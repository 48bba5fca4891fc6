/-!
# Scopes

Names and what they stand for, in nested scopes. There is always an outermost scope. A name is
looked up from the inside out, and a second declaration in one scope replaces the first.
-/

namespace StateGuard

/-- The names of one scope, each once. -/
abbrev Scope (α : Type) : Type := List (String × α)

namespace Scope

variable {α : Type}

/-- Declare a name, in place of an earlier declaration. -/
def insert (scope : Scope α) (name : String) (value : α) : Scope α :=
  (name, value) :: scope.filter (·.1 ≠ name)

/-- What a name stands for. -/
def find? (scope : Scope α) (name : String) : Option α := scope.lookup name

theorem find?_insert_self (scope : Scope α) (name : String) (value : α) :
    (scope.insert name value).find? name = some value := by
  simp [insert, find?]

theorem find?_insert_of_ne (scope : Scope α) {name other : String} (value : α)
    (h : other ≠ name) : (scope.insert name value).find? other = scope.find? other := by
  have hFilter : ∀ s : Scope α, (s.filter (·.1 ≠ name)).lookup other = s.lookup other := by
    intro s
    induction s with
    | nil => rfl
    | cons entry rest ih =>
        obtain ⟨key, v⟩ := entry
        by_cases hKey : key = name
        · have hOther : (other == key) = false := by
            rw [hKey]
            exact beq_false_of_ne h
          simp only [ne_eq, decide_not] at ih
          simp [hKey, List.lookup_cons, hKey ▸ hOther, ih]
        · simp only [ne_eq, decide_not] at ih
          simp [hKey, List.lookup_cons, ih]
  have hHead : (other == name) = false := beq_false_of_ne h
  simp only [insert, find?, List.lookup_cons, hHead]
  exact hFilter scope

end Scope

/-- Nested scopes, of which the outermost is always there. -/
structure Scopes (α : Type) where
  innermost : Scope α := []
  /-- The scopes around the innermost, from the inside out. -/
  outer : List (Scope α) := []
  deriving Repr

namespace Scopes

variable {α β : Type}

/-- One empty scope. -/
def empty : Scopes α := {}

/-- The number of scopes. -/
def depth (scopes : Scopes α) : Nat := scopes.outer.length + 1

/-- Enter a new scope. -/
def push (scopes : Scopes α) : Scopes α := ⟨[], scopes.innermost :: scopes.outer⟩

/-- Leave the innermost scope, unless it is the outermost. The result is the scope left. -/
def pop (scopes : Scopes α) : Option (Scope α) × Scopes α :=
  match scopes.outer with
  | [] => (none, scopes)
  | next :: outer => (some scopes.innermost, ⟨next, outer⟩)

/-- Declare a name in the innermost scope. -/
def declare (scopes : Scopes α) (name : String) (value : α) : Scopes α :=
  { scopes with innermost := scopes.innermost.insert name value }

/-- What a name stands for in the innermost scope that declares it. -/
def lookup (scopes : Scopes α) (name : String) : Option α :=
  (scopes.innermost :: scopes.outer).findSome? (·.find? name)

/-- Do something in a new scope, and leave it again. -/
def inScope (action : Scopes α → β × Scopes α) (scopes : Scopes α) : β × Scopes α :=
  let (result, scopes) := action scopes.push
  (result, scopes.pop.2)

/-! ## One equation for each operation -/

/-- A new scope hides nothing. -/
@[simp]
theorem lookup_push (scopes : Scopes α) (name : String) :
    scopes.push.lookup name = scopes.lookup name := rfl

/-- A declaration is found under its name. -/
theorem lookup_declare_self (scopes : Scopes α) (name : String) (value : α) :
    (scopes.declare name value).lookup name = some value := by
  simp [declare, lookup, Scope.find?_insert_self]

/-- A declaration changes no other name. -/
theorem lookup_declare_of_ne (scopes : Scopes α) {name other : String} (value : α)
    (h : other ≠ name) : (scopes.declare name value).lookup other = scopes.lookup other := by
  simp only [declare, lookup, List.findSome?_cons, Scope.find?_insert_of_ne _ value h]

/-- Leaving a scope undoes entering it. -/
@[simp]
theorem pop_push (scopes : Scopes α) : scopes.push.pop = (some [], scopes) := rfl

@[simp]
theorem depth_push (scopes : Scopes α) : scopes.push.depth = scopes.depth + 1 := rfl

end Scopes

end StateGuard
