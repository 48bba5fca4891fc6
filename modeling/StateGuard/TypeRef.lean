/-!
# Static types

A type is named by the full name of its definition and its type arguments. The generic definition
itself, before construction, is marked apart from its constructed forms.
-/

namespace StateGuard

/-- The static type of an expression. -/
structure TypeRef where
  /-- The full name of the definition. -/
  name : String
  /-- The type arguments, or the type parameters of a definition. -/
  args : List TypeRef := []
  /-- A generic definition that has not been given arguments. -/
  isDefinition : Bool := false
  deriving Repr, Inhabited

namespace TypeRef

mutual
/-- Types are compared by name, arguments and construction. -/
def decEq : (a b : TypeRef) → Decidable (a = b)
  | ⟨n₁, as₁, d₁⟩, ⟨n₂, as₂, d₂⟩ =>
    if hName : n₁ = n₂ then
      match decEqList as₁ as₂ with
      | isTrue hArgs =>
        if hDef : d₁ = d₂ then isTrue (by rw [hName, hArgs, hDef]) else isFalse (by simp [hDef])
      | isFalse hArgs => isFalse (by simp [hArgs])
    else isFalse (by simp [hName])
/-- Lists of types are compared element by element. -/
def decEqList : (as bs : List TypeRef) → Decidable (as = bs)
  | [], [] => isTrue rfl
  | [], _ :: _ => isFalse (by simp)
  | _ :: _, [] => isFalse (by simp)
  | a :: as, b :: bs =>
    match decEq a b with
    | isTrue hHead =>
      match decEqList as bs with
      | isTrue hTail => isTrue (by rw [hHead, hTail])
      | isFalse hTail => isFalse (by simp [hTail])
    | isFalse hHead => isFalse (by simp [hHead])
end

instance : DecidableEq TypeRef := decEq

/-- A type without arguments. -/
def named (name : String) : TypeRef := ⟨name, [], false⟩

/-- A constructed generic type. -/
def generic (name : String) (args : List TypeRef) : TypeRef := ⟨name, args, false⟩

/-- A generic definition with the parameters `T0`, `T1` and so on. -/
def definition (name : String) (arity : Nat) : TypeRef :=
  ⟨name, (List.range arity).map fun i => named ("T" ++ toString i), true⟩

/-- The type of conditions. -/
def boolean : TypeRef := named "bool"

/-- The number of type arguments. -/
def arity (type : TypeRef) : Nat := type.args.length

/-- The only argument of a constructed generic type with one parameter. -/
def singleArg? (type : TypeRef) : Option TypeRef :=
  match type.args, type.isDefinition with
  | [arg], false => some arg
  | _, _ => none

/-- The part of a dotted name after its last dot. -/
def lastSegment (name : String) : String :=
  String.ofList (name.toList.reverse.takeWhile (· ≠ '.')).reverse

/-- The name of the definition without its namespace. -/
def simpleName (type : TypeRef) : String := lastSegment type.name

mutual
/-- A type with its definition names written by `label`. -/
def write (label : String → String) : TypeRef → String
  | ⟨name, [], _⟩ => label name
  | ⟨name, arg :: args, _⟩ =>
    label name ++ "<" ++ String.intercalate ", " (write label arg :: writeAll label args) ++ ">"
/-- Each type of a list with its definition names written by `label`. -/
def writeAll (label : String → String) : List TypeRef → List String
  | [] => []
  | type :: types => write label type :: writeAll label types
end

/-- The type with full names. -/
def display (type : TypeRef) : String := type.write id

/-- The type without namespaces. -/
def shortDisplay (type : TypeRef) : String := type.write lastSegment

end TypeRef

end StateGuard
