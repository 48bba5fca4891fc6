import StateGuard.Json.Basic
import StateGuard.Text.Template

/-!
# The grammar of JSON

The strict grammar: no comments, no trailing commas, no leading zeros, no raw control characters in
texts, and nothing but blanks after the value. What is read here keeps texts and numbers as they are
written. What they stand for is a question of its own, which is not asked about parts that a reader
passes over.

A reader says what it read and how many characters that took, so that what follows is always the
text from there on.
-/

namespace StateGuard.Json

/-- A JSON value as it is written. -/
inductive Raw where
  | null
  | bool (value : Bool)
  | number (source : List Char)
  /-- A text, between its quotes. -/
  | text (source : List Char)
  | arr (items : List Raw)
  | obj (members : List (List Char × Raw))
  deriving Repr, Inhabited

/-! ## Texts -/

/-- The value of a hexadecimal digit. -/
def hexValue? (c : Char) : Option Nat :=
  if c.isDigit then some (c.toNat - '0'.toNat)
  else if 'a' ≤ c ∧ c ≤ 'f' then some (c.toNat - 'a'.toNat + 10)
  else if 'A' ≤ c ∧ c ≤ 'F' then some (c.toNat - 'A'.toNat + 10)
  else none

/-- The value of the four hexadecimal digits that come next. -/
def unit? : List Char → Option Nat
  | a :: b :: c :: d :: _ => do
    return (((← hexValue? a) * 16 + (← hexValue? b)) * 16 + (← hexValue? c)) * 16 + (← hexValue? d)
  | _ => none

/-- The character that a short escape stands for. -/
def shortEscape? : Char → Option Char
  | '"' => some '"'
  | '\\' => some '\\'
  | '/' => some '/'
  | 'b' => some '\x08'
  | 'f' => some '\x0c'
  | 'n' => some '\n'
  | 'r' => some '\r'
  | 't' => some '\t'
  | _ => none

/-- The length of an escape after the backslash. -/
def escapeLength? : List Char → Option Nat
  | 'u' :: rest => (unit? rest).map fun _ => 5
  | c :: _ => (shortEscape? c).map fun _ => 1
  | [] => none

/-- The length of a text after its opening quote, without the closing one. -/
def textLength? (cs : List Char) : Option Nat :=
  match cs with
  | [] => none
  | '"' :: _ => some 0
  | '\\' :: rest => do
    let length ← escapeLength? rest
    let more ← textLength? (rest.drop length)
    return 1 + length + more
  | c :: rest => if 0x20 ≤ c.toNat then (textLength? rest).map (· + 1) else none
termination_by cs.length
decreasing_by all_goals (simp only [List.length_drop, List.length_cons]; omega)

/-! ## Numbers -/

/-- The length of the digits that come next. -/
def digitCount (cs : List Char) : Nat := (cs.takeWhile Char.isDigit).length

/-- The length of the digits that come next, of which there must be some. -/
def digits? (cs : List Char) : Option Nat :=
  if digitCount cs = 0 then none else some (digitCount cs)

/-- The length of a whole part: a zero alone, or digits that do not begin with zero. -/
def wholeLength? : List Char → Option Nat
  | '0' :: _ => some 1
  | cs => digits? cs

/-- The length of a fraction, which may be absent. -/
def fractionLength? : List Char → Option Nat
  | '.' :: cs => (digits? cs).map (· + 1)
  | _ => some 0

/-- The length of an exponent after its mark. -/
def exponentDigits? : List Char → Option Nat
  | '+' :: cs => (digits? cs).map (· + 1)
  | '-' :: cs => (digits? cs).map (· + 1)
  | cs => digits? cs

/-- The length of an exponent, which may be absent. -/
def exponentLength? : List Char → Option Nat
  | 'e' :: cs => (exponentDigits? cs).map (· + 1)
  | 'E' :: cs => (exponentDigits? cs).map (· + 1)
  | _ => some 0

/-- The length of a number after its sign. -/
def numberLength? (cs : List Char) : Option Nat := do
  let whole ← wholeLength? cs
  let fraction ← fractionLength? (cs.drop whole)
  let exponent ← exponentLength? (cs.drop (whole + fraction))
  return whole + fraction + exponent

/-! ## Values -/

/-- The length of the blanks that come next. -/
def spaceCount (cs : List Char) : Nat :=
  (cs.takeWhile fun c => c == ' ' || c == '\n' || c == '\t' || c == '\r').length

/-- Whether nothing but blanks is left. -/
def isSpace (cs : List Char) : Bool := spaceCount cs = cs.length

namespace Raw

/-- Read a word of the grammar or a number. -/
def simple? (cs : List Char) : Option (Raw × Nat) :=
  if "null".toList.isPrefixOf cs then some (.null, 4)
  else if "true".toList.isPrefixOf cs then some (.bool true, 4)
  else if "false".toList.isPrefixOf cs then some (.bool false, 5)
  else do
    let length ←
      match cs with
      | '-' :: rest => (numberLength? rest).map (· + 1)
      | cs => numberLength? cs
    return (.number (cs.take length), length)

mutual
/-- Read a value that begins at once. -/
def value? (cs : List Char) : Option (Raw × Nat) :=
  match cs with
  | '"' :: rest => (textLength? rest).map fun length => (.text (rest.take length), length + 2)
  | '[' :: rest =>
    let blanks := spaceCount rest
    if (rest.drop blanks).head? = some ']' then some (.arr [], blanks + 2)
    else
      match items rest with
      | (items, some length) => some (.arr items, length + 1)
      | _ => none
  | '\x7b' :: rest =>
    let blanks := spaceCount rest
    if (rest.drop blanks).head? = some '\x7d' then some (.obj [], blanks + 2)
    else
      match members rest with
      | (members, some length) => some (.obj members, length + 1)
      | _ => none
  | cs => simple? cs
termination_by 2 * cs.length
decreasing_by all_goals (simp only [List.length_cons]; omega)

/-- Read the items of an array with its closing bracket. The length is missing if the array breaks
off after the items. -/
def items (cs : List Char) : List Raw × Option Nat :=
  let blanks := spaceCount cs
  match value? (cs.drop blanks) with
  | none => ([], none)
  | some (item, length) =>
    let taken := blanks + length
    let taken := taken + spaceCount (cs.drop taken)
    match _h : cs.drop taken with
    | ',' :: rest =>
      let (others, more) := items rest
      (item :: others, more.map (taken + 1 + ·))
    | ']' :: _ => ([item], some (taken + 1))
    | _ => ([item], none)
termination_by 2 * cs.length + 1
decreasing_by
  · simp only [List.length_drop]
    omega
  · have hDrop := congrArg List.length _h
    simp only [List.length_drop, List.length_cons] at hDrop
    omega

/-- Read the members of an object with its closing brace. The length is missing if the object breaks
off after the members. -/
def members (cs : List Char) : List (List Char × Raw) × Option Nat :=
  let taken := spaceCount cs
  match cs.drop taken with
  | '"' :: rest =>
    match textLength? rest with
    | none => ([], none)
    | some length =>
      let key := rest.take length
      let taken := taken + length + 2
      let taken := taken + spaceCount (cs.drop taken)
      if (cs.drop taken).head? ≠ some ':' then ([], none)
      else
        let taken := taken + 1
        let taken := taken + spaceCount (cs.drop taken)
        match value? (cs.drop taken) with
        | none => ([], none)
        | some (value, length) =>
          let taken := taken + length
          let taken := taken + spaceCount (cs.drop taken)
          match _h : cs.drop taken with
          | ',' :: rest =>
            let (others, more) := members rest
            ((key, value) :: others, more.map (taken + 1 + ·))
          | '\x7d' :: _ => ([(key, value)], some (taken + 1))
          | _ => ([(key, value)], none)
  | _ => ([], none)
termination_by 2 * cs.length + 1
decreasing_by
  · simp only [List.length_drop]
    omega
  · have hDrop := congrArg List.length _h
    simp only [List.length_drop, List.length_cons] at hDrop
    omega
end

/-- The value of a text. -/
def read? (source : String) : Option Raw := do
  let cs := source.toList
  let blanks := spaceCount cs
  let (value, length) ← value? (cs.drop blanks)
  if isSpace (cs.drop (blanks + length)) then some value else none

/-- The items or members of a text up to the place where it breaks off. -/
def opening (source : String) : Raw :=
  match source.toList.drop (spaceCount source.toList) with
  | '[' :: rest => .arr (items rest).1
  | '\x7b' :: rest => .obj (members rest).1
  | _ => .null

end Raw

end StateGuard.Json
