import StateGuard.Word

/-!
# JSON values

Numbers that are whole and fit in 64 bits, signed or unsigned, are integers. Any other number keeps
its text, since nothing here computes with it. Members of an object keep their order, and a key may
occur more than once.
-/

namespace StateGuard

/-- A JSON value. -/
inductive Json where
  | null
  | bool (value : Bool)
  | int (value : Int)
  /-- A number with a fraction or an exponent, or out of range, as it is written. -/
  | real (text : String)
  | str (value : String)
  | arr (items : List Json)
  | obj (members : List (String × Json))
  deriving Repr, Inhabited

namespace Json

/-- A natural number. -/
def nat (value : Nat) : Json := .int value

/-- A value or null. -/
def ofOption {α : Type} (encode : α → Json) : Option α → Json
  | some value => encode value
  | none => .null

/-- The least integer that is kept as one. -/
def minInt : Int := -Word.capacity 63

/-- The greatest integer that is kept as one. -/
def maxInt : Int := Word.capacity 64 - 1

/-- The last value of a key. -/
def member? (key : String) : Json → Option Json
  | .obj members => members.reverse.lookup key
  | _ => none

end Json

end StateGuard
