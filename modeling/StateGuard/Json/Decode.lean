import StateGuard.Json.Basic

/-!
# Decoding JSON

Small decoders for the shapes that documents are made of. A decoder gives nothing for a value of
another shape. Records are objects, or arrays of their fields in order; keys that are not fields are
left alone, and a field may be given only once.
-/

namespace StateGuard.Json

/-- A natural number below a bound. -/
def nat? (bound : Nat) : Json → Option Nat
  | .int value => if 0 ≤ value ∧ value < bound then some value.toNat else none
  | _ => none

/-- A node number or a count: 64 bits without a sign. -/
def index? : Json → Option Nat := nat? (Word.capacity 64)

/-- A line or a column: 32 bits without a sign. -/
def short? : Json → Option Nat := nat? (Word.capacity 32)

/-- A signed integer of 64 bits. -/
def long? : Json → Option Int
  | .int value => if minInt ≤ value ∧ value < Word.capacity 63 then some value else none
  | _ => none

/-- A truth value. -/
def bool? : Json → Option Bool
  | .bool value => some value
  | _ => none

/-- A text. -/
def str? : Json → Option String
  | .str value => some value
  | _ => none

/-- A list of values of one shape. -/
def list? {α : Type} (decode : Json → Option α) : Json → Option (List α)
  | .arr items => items.mapM decode
  | _ => none

/-- A value or null. -/
def optional? {α : Type} (decode : Json → Option α) : Json → Option (Option α)
  | .null => some none
  | value => (decode value).map some

/-- The fields of a record, with the values given for them. -/
abbrev Fields : Type := List (String × Json)

/-- The fields of a record with the given names. -/
def fields? (names : List String) : Json → Option Fields
  | .obj members =>
    let known := members.filter fun (key, _) => names.contains key
    if (known.map (·.1)).eraseDups.length = known.length then some known else none
  | .arr items => if items.length ≤ names.length then some (names.zip items) else none
  | _ => none

/-- A field that must be given. -/
def Fields.required? {α : Type} (fields : Fields) (name : String) (decode : Json → Option α) :
    Option α :=
  match fields.lookup name with
  | some value => decode value
  | none => none

/-- A field with a default. -/
def Fields.withDefault? {α : Type} (fields : Fields) (name : String) (decode : Json → Option α)
    (default : α) : Option α :=
  match fields.lookup name with
  | some value => decode value
  | none => some default

end StateGuard.Json
