import StateGuard.Double
import StateGuard.Text.Template

/-!
# Numbers in YAML

Which scalars without quotes are read as numbers, and the value of those that are whole and not
negative.
-/

namespace StateGuard.Yaml

/-- The value of a digit in any base up to sixteen. -/
def digitValue? (c : Char) : Option Nat :=
  if c.isDigit then some (c.toNat - '0'.toNat)
  else if 'a' ≤ c ∧ c ≤ 'f' then some (c.toNat - 'a'.toNat + 10)
  else if 'A' ≤ c ∧ c ≤ 'F' then some (c.toNat - 'A'.toNat + 10)
  else none

/-- The value of digits in a base. There must be some. -/
def inBase? (base : Nat) (digits : List Char) : Option Nat :=
  if digits.isEmpty then none
  else
    digits.foldlM (fun value digit =>
      match digitValue? digit with
      | some d => if d < base then some (base * value + d) else none
      | none => none) 0

/-- A text without a plus sign in front. -/
def dropPlus : List Char → List Char
  | '+' :: rest => rest
  | cs => cs

/-- A text without a sign in front. -/
def dropSign : List Char → List Char
  | '+' :: rest => rest
  | '-' :: rest => rest
  | cs => cs

/-- Digits that begin with a zero in vain, which are read as a text. -/
def isPadded (cs : List Char) : Bool :=
  match dropSign cs with
  | '0' :: rest => !rest.isEmpty && rest.all Char.isDigit
  | _ => false

/-- The value of digits with the mark of their base, or decimal without one. -/
def magnitude? : List Char → Option Nat
  | '0' :: 'x' :: digits => inBase? 16 digits
  | '0' :: 'o' :: digits => inBase? 8 digits
  | '0' :: 'b' :: digits => inBase? 2 digits
  | digits => inBase? 10 digits

/-- The whole number that a scalar stands for, if it is not negative. -/
def natural? (text : String) : Option Nat :=
  if isPadded text.toList then none else magnitude? (dropPlus text.toList)

/-! ## Other numbers -/

/-- Whether a text is digits, perhaps none. -/
def allDigits (cs : List Char) : Bool := cs.all Char.isDigit

/-- The value of digits, of which there may be none. -/
def digitsValue (cs : List Char) : Nat := (Text.decimal? cs).getD 0

/-- A mark of an exponent. -/
def isExponentMark (c : Char) : Bool := c == 'e' || c == 'E'

/-- The digits of a decimal number without an exponent, and how many of them stand behind its point:
at least one digit, and at most one point. -/
def mantissa? (cs : List Char) : Option (Nat × Nat) :=
  let whole := cs.takeWhile (· ≠ '.')
  let fraction := (cs.dropWhile (· ≠ '.')).drop 1
  if allDigits whole && allDigits fraction && !(whole.isEmpty && fraction.isEmpty) then
    some (digitsValue (whole ++ fraction), fraction.length)
  else none

/-- The value of an exponent without its mark. -/
def exponent? : List Char → Option Int
  | '-' :: digits => (Text.decimal? digits).map fun n => -(n : Int)
  | cs => (Text.decimal? (dropPlus cs)).map fun n => (n : Int)

/-- A decimal number without a sign: whole digits and a power of ten. -/
def real? (cs : List Char) : Option (Nat × Int) := do
  let (digits, places) ← mantissa? (cs.takeWhile (!isExponentMark ·))
  match cs.dropWhile (!isExponentMark ·) with
  | [] => return (digits, -(places : Int))
  | _ :: exponent => return (digits, (← exponent? exponent) - places)

/-- Whether a text without a sign is a decimal number that is not too large for a double. -/
def isReal (cs : List Char) : Bool :=
  match real? cs with
  | some (digits, exponent) => Double.isFinite digits exponent
  | none => false

/-- The words for numbers that are not finite. -/
def notFiniteWords : List String :=
  [".inf", ".Inf", ".INF", "+.inf", "+.Inf", "+.INF", "-.inf", "-.Inf", "-.INF", ".nan", ".NaN",
   ".NAN"]

/-- Whether a text is a whole number of at most 128 bits, where a sign takes one of them. -/
def isWhole : List Char → Bool
  | '-' :: digits => (magnitude? digits).any (· ≤ Word.capacity 127)
  | cs => (magnitude? (dropPlus cs)).any (· < Word.capacity 128)

/-- Whether a scalar is read as a number, or would be if it were not padded with zeros. -/
def looksLikeNumber (text : String) : Bool :=
  let cs := text.toList
  isPadded cs || notFiniteWords.contains text || isReal (dropSign cs) || isWhole cs

end StateGuard.Yaml
