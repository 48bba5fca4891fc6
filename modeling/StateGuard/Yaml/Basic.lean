/-!
# YAML values

Scalars, sequences, and mappings whose keys are scalars. How a scalar is written decides what it can
stand for: one without quotes may be a number, a truth value or the absence of a value, and a tag
may say which.
-/

namespace StateGuard

namespace Yaml

/-- How a scalar is written. -/
inductive Style where
  /-- Without quotes. -/
  | plain
  | singleQuoted
  | doubleQuoted
  /-- A block of lines that are kept. -/
  | literal
  /-- A block of lines that are joined. -/
  | folded
  deriving DecidableEq, Repr, Inhabited

/-- A scalar: its text, how it is written, and its tag. -/
structure Scalar where
  style : Style := .plain
  tag : Option String := none
  text : String
  deriving DecidableEq, Repr, Inhabited

end Yaml

/-- A YAML value. -/
inductive Yaml where
  | scalar (value : Yaml.Scalar)
  | seq (items : List Yaml)
  | map (entries : List (String × Yaml))
  deriving Repr, Inhabited

namespace Yaml

/-- A scalar without quotes. -/
def plain (text : String) : Yaml := .scalar ⟨.plain, none, text⟩

/-- The value of what is left out. -/
def absent : Yaml := plain ""

/-- The words for the absence of a value. -/
def nullWords : List String := ["~", "null", "Null", "NULL"]

/-- The words for truth. -/
def trueWords : List String := ["true", "True", "TRUE"]

/-- The words for falsehood. -/
def falseWords : List String := ["false", "False", "FALSE"]

/-- What the tags of the core schema begin with. -/
def coreTags : String := "tag:yaml.org,2002:"

/-- The tag of absent values. -/
def nullTag : String := coreTags ++ "null"

/-- The tag of truth values. -/
def boolTag : String := coreTags ++ "bool"

/-- The tag of whole numbers. -/
def intTag : String := coreTags ++ "int"

namespace Scalar

/-- Whether nothing was written. -/
def isBlank (scalar : Scalar) : Bool := scalar.style = .plain && scalar.text.isEmpty

/-- Whether a scalar may stand for something else than its text: it has no quotes, or it is a block
with the tag of what it stands for. -/
def isOpen (tag : String) (scalar : Scalar) : Bool :=
  scalar.style = .plain || (scalar.style = .literal && scalar.tag = some tag)

end Scalar

end Yaml

end StateGuard
