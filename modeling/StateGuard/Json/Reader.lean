import StateGuard.Double
import StateGuard.Json.Raw

/-!
# Reading JSON

What the texts and numbers of a document stand for. Halves of pairs must be paired in texts, numbers
must not be too large, and values nest to a limited depth. A reader that knows which members count
passes over the others, whatever they hold.
-/

namespace StateGuard.Json

/-! ## Texts -/

/-- The first half of a pair that stands for one character. -/
def isHighHalf (code : Nat) : Bool := 0xd800 ≤ code && code < 0xdc00

/-- The second half of a pair that stands for one character. -/
def isLowHalf (code : Nat) : Bool := 0xdc00 ≤ code && code < 0xe000

/-- The character that an escape by code stands for, after its mark, and the length of the code. A
character beyond the first plane is a pair of codes. -/
def codeEscape? (cs : List Char) : Option (Char × Nat) := do
  let code ← unit? cs
  if isHighHalf code then
    match cs.drop 4 with
    | '\\' :: 'u' :: rest => do
      let low ← unit? rest
      if isLowHalf low then
        return (Char.ofNat (0x10000 + (code - 0xd800) * 0x400 + (low - 0xdc00)), 10)
      else none
    | _ => none
  else if isLowHalf code then none
  else return (Char.ofNat code, 4)

/-- The character that an escape stands for, after the backslash, and the length of the escape. -/
def escape? : List Char → Option (Char × Nat)
  | 'u' :: rest => (codeEscape? rest).map fun (char, length) => (char, length + 1)
  | c :: _ => (shortEscape? c).map fun char => (char, 1)
  | [] => none

/-- What a text stands for, given as it is written between its quotes. -/
def unescape? (cs : List Char) : Option (List Char) :=
  match cs with
  | [] => some []
  | '\\' :: rest => do
    let (char, length) ← escape? rest
    let value ← unescape? (rest.drop length)
    return char :: value
  | c :: rest => (unescape? rest).map (c :: ·)
termination_by cs.length
decreasing_by all_goals (simp only [List.length_drop, List.length_cons]; omega)

/-! ## Numbers -/

/-- A number as it is written, cut into its parts. -/
structure Numeral where
  negative : Bool
  whole : List Char
  fraction : List Char
  exponent : Int
  /-- Whether there is neither a fraction nor an exponent. -/
  isWhole : Bool
  deriving Repr

/-- The value of digits, of which there may be none. -/
def digitsValue (digits : List Char) : Nat := (Text.decimal? digits).getD 0

/-- The value of an exponent after its mark. -/
def exponentValue : List Char → Int
  | '-' :: digits => -(digitsValue digits : Int)
  | '+' :: digits => digitsValue digits
  | digits => digitsValue digits

/-- The parts of a number. -/
def Numeral.ofSource (source : List Char) : Numeral :=
  let negative := source.head? == some '-'
  let magnitude := if negative then source.drop 1 else source
  let whole := magnitude.takeWhile Char.isDigit
  let rest := magnitude.drop whole.length
  let fraction := if rest.head? == some '.' then (rest.drop 1).takeWhile Char.isDigit else []
  let exponent := (rest.dropWhile fun c => c != 'e' && c != 'E').drop 1
  ⟨negative, whole, fraction, exponentValue exponent, rest.isEmpty⟩

/-- The integer of a sign and digits. Minus zero is none. -/
def integer? (negative : Bool) (digits : List Char) : Option Int := do
  let magnitude ← Text.decimal? digits
  let value : Int := if negative then -magnitude else magnitude
  if (negative && magnitude == 0) || value < minInt || maxInt < value then none else some value

/-- Digits appended to a word as long as they fit, and the number of digits left over. -/
def absorb (word : Nat) : List Char → Nat × Nat
  | [] => (word, 0)
  | d :: rest =>
    let next := 10 * word + (d.toNat - '0'.toNat)
    if next < Word.capacity 64 then absorb next rest else (word, rest.length + 1)

/-- The greatest power of ten that is a double. -/
def maxPower : Nat := 308

/-- Whether a number is too large for a double: its leading digits, rounded, times a power of ten,
rounded. -/
def Numeral.isTooLarge (numeral : Numeral) : Bool :=
  let (whole, left) := absorb 0 numeral.whole
  let (digits, dropped) := absorb whole numeral.fraction
  let exponent : Int := numeral.exponent + left - (numeral.fraction.length - dropped)
  digits ≠ 0 && 0 ≤ exponent && (maxPower < exponent ||
    Double.limit ≤ Double.round digits * Double.round (Nat.pow 10 exponent.toNat))

/-- The value of a number: an integer if it can be kept as one. -/
def number? (source : List Char) : Option Json :=
  let numeral := Numeral.ofSource source
  match if numeral.isWhole then integer? numeral.negative numeral.whole else none with
  | some value => some (.int value)
  | none => if numeral.isTooLarge then none else some (.real (String.ofList source))

/-! ## Values -/

/-- The greatest depth to which values may nest. -/
def maxDepth : Nat := 127

namespace Raw

/-- The key of a member. -/
def key? (source : List Char) : Option String := (unescape? source).map String.ofList

mutual
/-- What a value stands for if it nests no deeper than `depth`. Members whose keys do not count are
left out. -/
def resolve? (counts : String → Bool) (depth : Nat) : Raw → Option Json
  | .null => some .null
  | .bool value => some (.bool value)
  | .number source => number? source
  | .text source => (key? source).map .str
  | .arr raws =>
    match depth with
    | 0 => none
    | depth + 1 => (resolveItems? counts depth raws).map .arr
  | .obj raws =>
    match depth with
    | 0 => none
    | depth + 1 => (resolveMembers? counts depth raws).map .obj
/-- What the items of an array stand for. -/
def resolveItems? (counts : String → Bool) (depth : Nat) : List Raw → Option (List Json)
  | [] => some []
  | raw :: raws => do
    let item ← resolve? counts depth raw
    let items ← resolveItems? counts depth raws
    return item :: items
/-- What the members of an object stand for. -/
def resolveMembers? (counts : String → Bool) (depth : Nat) :
    List (List Char × Raw) → Option (List (String × Json))
  | [] => some []
  | (source, raw) :: raws => do
    let key ← key? source
    if counts key then
      let value ← resolve? counts depth raw
      let members ← resolveMembers? counts depth raws
      return (key, value) :: members
    else resolveMembers? counts depth raws
end

/-- What a value stands for, with all its members. -/
def resolveAll? (depth : Nat) (raw : Raw) : Option Json := raw.resolve? (fun _ => true) depth

/-- A record with some fields, each of which has a way to resolve it. Other members are left
out. -/
def record? (names : List String) (field? : String → Raw → Option Json) : Raw → Option Json
  | .obj members => do
    let found ← members.mapM fun (source, raw) => do
      let key ← key? source
      if names.contains key then return some (key, ← field? key raw) else return none
    return .obj (found.filterMap id)
  | .arr items =>
    if items.length ≤ names.length then
      ((names.zip items).mapM fun (name, raw) => field? name raw).map .arr
    else none
  | _ => none

end Raw

/-- The value of a text. -/
def read? (source : String) : Option Json := (Raw.read? source).bind (Raw.resolveAll? maxDepth)

end StateGuard.Json
