import StateGuard.Yaml.Basic
import StateGuard.Yaml.Character
import StateGuard.Yaml.Number

/-!
# Writing YAML

Values in block style: a nested mapping is indented by two, the dashes of a sequence stand below the
first letter of its key, and an empty sequence is a pair of brackets. A text is written without
quotes when it cannot be taken for anything else, else in single quotes. A text of several lines is
written as a literal block, and a text with characters that have to be escaped in double quotes.
-/

namespace StateGuard.Yaml

/-! ## Styles -/

/-- Whether the beginning of a text would be taken for a mark. -/
def startsWithMark : List Char → Bool
  | [] => false
  | c :: rest =>
    reserved.contains c || ((c == '?' || c == ':' || c == '-') && blankNext rest) ||
      "---".toList.isPrefixOf (c :: rest) || "...".toList.isPrefixOf (c :: rest)

/-- Whether a mark comes up inside a text, of which the character before is known. -/
def holdsMark (before : Char) : List Char → Bool
  | [] => false
  | c :: rest =>
    (c == ':' && blankNext rest) || (c == '#' && isBlankOrBreak before) || holdsMark c rest

/-- Whether a character of one kind stands right before one of another. -/
def holdsPair (first second : Char → Bool) : List Char → Bool
  | a :: b :: rest => (first a && second b) || holdsPair first second (b :: rest)
  | _ => false

/-- Whether a text holds a blank right before the end of a line. -/
def hasBlankEnd (cs : List Char) : Bool := holdsPair (· == ' ') isBreak cs

/-- Whether a text keeps its meaning without quotes, apart from words and numbers. -/
def isPlainText (text : String) : Bool :=
  match text.toList with
  | [] => true
  | c :: rest =>
    c != ' ' && (c :: rest).getLast? != some ' ' && (c :: rest).all isPrintable &&
      !(c :: rest).any isBreak && !startsWithMark (c :: rest) && !holdsMark c rest

/-- Whether a text can be written in single quotes. -/
def isSingleText (text : String) : Bool :=
  let cs := text.toList
  cs.all isPrintable && !hasBlankEnd cs && !holdsPair isBreak (· == ' ') cs

/-- Whether a text can be written as a literal block. -/
def isBlockText (text : String) : Bool :=
  let cs := text.toList
  cs.all isPrintable && !hasBlankEnd cs && cs.getLast? != some ' '

/-- The words that do not stand for themselves. -/
def reservedWords : List String := "" :: nullWords ++ trueWords ++ falseWords

/-- Whether a text without quotes would be read as something else. -/
def isAmbiguous (text : String) : Bool := reservedWords.contains text || looksLikeNumber text

/-- How a text is written. -/
def styleOf (text : String) : Style :=
  if text.toList.contains '\n' then if isBlockText text then .literal else .doubleQuoted
  else if !isAmbiguous text && isPlainText text then .plain
  else if isSingleText text then .singleQuoted
  else .doubleQuoted

/-- A text as a value. -/
def ofText (text : String) : Yaml := .scalar ⟨styleOf text, none, text⟩

/-- A truth value. -/
def ofBool (value : Bool) : Yaml := plain (if value then "true" else "false")

/-- A natural number. -/
def ofNat (value : Nat) : Yaml := plain (toString value)

/-! ## Scalars -/

/-- So many blanks. -/
def spaces (count : Nat) : List Char := List.replicate count ' '

/-- The digit of a number below sixteen. -/
def upperHexDigit (n : Nat) : Char :=
  if n < 10 then Char.ofNat ('0'.toNat + n) else Char.ofNat ('A'.toNat + (n - 10))

/-- The last `count` digits of a number in base sixteen. -/
def hexDigits (count n : Nat) : List Char :=
  (List.range count).reverse.map fun i => upperHexDigit ((n >>> (4 * i)) % 16)

/-- A character by code. -/
def escapeByCode (c : Char) : List Char :=
  let n := c.toNat
  if n ≤ 0xff then ['\\', 'x'] ++ hexDigits 2 n
  else if n ≤ 0xffff then ['\\', 'u'] ++ hexDigits 4 n
  else ['\\', 'U'] ++ hexDigits 8 n

/-- A character in double quotes. -/
def escapeChar (c : Char) : List Char :=
  if isPrintable c && !isBreak c && c != '"' && c != '\\' then [c]
  else
    match c with
    | '\x00' => ['\\', '0']
    | '\x07' => ['\\', 'a']
    | '\x08' => ['\\', 'b']
    | '\t' => ['\\', 't']
    | '\n' => ['\\', 'n']
    | '\x0b' => ['\\', 'v']
    | '\x0c' => ['\\', 'f']
    | '\r' => ['\\', 'r']
    | '\x1b' => ['\\', 'e']
    | '"' => ['\\', '"']
    | '\\' => ['\\', '\\']
    | '\u0085' => ['\\', 'N']
    | '\u2028' => ['\\', 'L']
    | '\u2029' => ['\\', 'P']
    | c => escapeByCode c

/-- A character in single quotes. -/
def doubleQuote (c : Char) : List Char := if c = '\'' then ['\'', '\''] else [c]

/-- A text with every line indented that is not empty. `fresh` says whether it begins a line. -/
def indentLines (indent : Nat) (fresh : Bool) : List Char → List Char
  | [] => []
  | c :: rest =>
    if isBreak c then c :: indentLines indent true rest
    else (if fresh then spaces indent else []) ++ c :: indentLines indent false rest

/-- The mark for how a block ends: whether all line breaks at its end are kept, one, or none. -/
def endingMark (cs : List Char) : List Char :=
  match cs.reverse with
  | [] => ['-']
  | [c] => if isBreak c then ['+'] else ['-']
  | c :: b :: _ => if !isBreak c then ['-'] else if isBreak b then ['+'] else []

/-- The mark for the depth of a block, which is needed when its first line does not show it. -/
def depthMark : List Char → List Char
  | c :: _ => if c == ' ' || isBreak c then ['2'] else []
  | [] => []

/-- The text of a scalar whose further lines are indented. -/
def scalarText (indent : Nat) (leaf : Scalar) : List Char :=
  let cs := leaf.text.toList
  match leaf.style with
  | .plain => cs
  | .singleQuoted => '\'' :: indentLines indent false (cs.flatMap doubleQuote ++ ['\''])
  | .doubleQuoted => '"' :: cs.flatMap escapeChar ++ ['"']
  | .literal | .folded =>
    '|' :: depthMark cs ++ endingMark cs ++ '\n' :: indentLines indent true cs

/-! ## Values -/

/-- A text with a line feed, unless it ends with a line break already. -/
def endLine (cs : List Char) : List Char :=
  if cs.getLast?.any isBreak then cs else cs ++ ['\n']

mutual
/-- The lines of a value that stands by itself, from a column on. -/
def block (indent : Nat) : Yaml → List Char
  | .scalar leaf => endLine (spaces indent ++ scalarText indent leaf)
  | .seq [] => spaces indent ++ ['[', ']', '\n']
  | .seq (item :: items) => itemLines indent (item :: items)
  | .map [] => spaces indent ++ ['\x7b', '\x7d', '\n']
  | .map (entry :: entries) => entryLines indent (entry :: entries)
/-- The lines of the items of a sequence. A dash stands in front of each, in its indentation. -/
def itemLines (indent : Nat) : List Yaml → List Char
  | [] => []
  | item :: items =>
    spaces indent ++ '-' :: ' ' :: (block (indent + 2) item).drop (indent + 2) ++
      itemLines indent items
/-- The lines of the entries of a mapping. -/
def entryLines (indent : Nat) : List (String × Yaml) → List Char
  | [] => []
  | (key, value) :: entries =>
    spaces indent ++ key.toList ++ ':' :: valueLines indent value ++ entryLines indent entries
/-- The lines of a value after its key. -/
def valueLines (indent : Nat) : Yaml → List Char
  | .scalar leaf => endLine (' ' :: scalarText (indent + 2) leaf)
  | .seq [] => [' ', '[', ']', '\n']
  | .seq (item :: items) => '\n' :: itemLines indent (item :: items)
  | .map [] => [' ', '\x7b', '\x7d', '\n']
  | .map (entry :: entries) => '\n' :: entryLines (indent + 2) (entry :: entries)
end

/-- The text of a document. -/
def write (value : Yaml) : String := String.ofList (block 0 value)

/-- The lines of a document. -/
def lines (value : Yaml) : List String := (write value).splitOn "\n" |>.dropLast

end StateGuard.Yaml
