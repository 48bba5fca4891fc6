import StateGuard.Yaml.Basic
import StateGuard.Yaml.Number

/-!
# Decoding YAML

Small decoders for the shapes that configurations are made of. A decoder gives nothing for a value
of another shape. Records are mappings; a key that is not a field, or a field given twice, is an
error. What is left out stands for an empty list or record.
-/

namespace StateGuard.Yaml

/-- A text. Any scalar is one. -/
def text? : Yaml → Option String
  | .scalar leaf => some leaf.text
  | _ => none

/-- A truth value. -/
def bool? : Yaml → Option Bool
  | .scalar leaf =>
    if !leaf.isOpen boolTag then none
    else if trueWords.contains leaf.text then some true
    else if falseWords.contains leaf.text then some false
    else none
  | _ => none

/-- A natural number below a bound. -/
def nat? (bound : Nat) : Yaml → Option Nat
  | .scalar leaf =>
    if leaf.isOpen intTag then (natural? leaf.text).filter (· < bound) else none
  | _ => none

/-- A list of values of one shape. -/
def list? {α : Type} (decode : Yaml → Option α) : Yaml → Option (List α)
  | .seq items => items.mapM decode
  | .scalar leaf => if leaf.isBlank then some [] else none
  | _ => none

/-- Whether a value is present; nothing for a value that is said to be absent and is not. Only a
scalar without quotes can be absent, and one with another tag never is. -/
def isPresent? : Yaml → Option Bool
  | .scalar ⟨.plain, none, text⟩ => some (!text.isEmpty && !nullWords.contains text)
  | .scalar ⟨.plain, some tag, text⟩ =>
    if tag ≠ nullTag then some true else if nullWords.contains text then some false else none
  | _ => some true

/-- A value that may be absent. -/
def optional? {α : Type} (decode : Yaml → Option α) (value : Yaml) : Option (Option α) :=
  match value.isPresent? with
  | none => none
  | some false => some none
  | some true => (decode value).map some

/-- The fields of a record, with the values given for them. -/
abbrev Fields : Type := List (String × Yaml)

/-- The fields of a record with the given names. -/
def fields? (names : List String) : Yaml → Option Fields
  | .map entries =>
    if (entries.map (·.1)).all names.contains &&
        (entries.map (·.1)).eraseDups.length = entries.length then some entries
    else none
  | .scalar leaf => if leaf.isBlank then some [] else none
  | _ => none

/-- A field that must be given. -/
def Fields.required? {α : Type} (fields : Fields) (name : String) (decode : Yaml → Option α) :
    Option α :=
  match fields.lookup name with
  | some value => decode value
  | none => none

/-- A field with a default. -/
def Fields.withDefault? {α : Type} (fields : Fields) (name : String) (decode : Yaml → Option α)
    (default : α) : Option α :=
  match fields.lookup name with
  | some value => decode value
  | none => some default

end StateGuard.Yaml
