import StateGuard.Yaml.Cursor
import StateGuard.Yaml.Number

/-!
# Tags, anchors and directives

The marks that stand in front of values and documents. A tag is written in full between angle
brackets, or as a handle and a suffix; octets in it may be written as a percent sign and two digits.
-/

namespace StateGuard.Yaml

/-- A character of tags. Those of the flow style only stand in tags that are written in full. -/
def isTagChar (full : Bool) (c : Char) : Bool :=
  isNameChar c || [';', '/', '?', ':', '@', '&', '=', '+', '$', '.', '!', '~', '*', '\'', '(',
    ')'].contains c || (full && [',', '[', ']'].contains c)

/-- The number of octets of the character that begins with an octet. -/
def octetCount? (octet : Nat) : Option Nat :=
  if octet < 0x80 then some 1
  else if 0xc0 ≤ octet && octet < 0xe0 then some 2
  else if 0xe0 ≤ octet && octet < 0xf0 then some 3
  else if 0xf0 ≤ octet && octet < 0xf8 then some 4
  else none

/-- The characters of a tag and their length in the document. The octets of a character follow each
other; `pending` of them are still to come. -/
def tagChars? (full : Bool) (pending : Nat) : List Char → Option (List Char × Nat)
  | '%' :: a :: b :: rest => do
    let octet ← inBase? 16 [a, b]
    let pending ←
      match pending with
      | 0 => (octetCount? octet).map (· - 1)
      | more + 1 => if 0x80 ≤ octet && octet < 0xc0 then some more else none
    let (chars, length) ← tagChars? full pending rest
    return (Char.ofNat octet :: chars, length + 3)
  | '%' :: _ => none
  | c :: rest =>
    if pending ≠ 0 then none
    else if isTagChar full c then
      (tagChars? full 0 rest).map fun (chars, length) => (c :: chars, length + 1)
    else some ([], 0)
  | [] => if pending = 0 then some ([], 0) else none

/-- The text of a tag or of a part of one. It ends at the first null character. -/
def tagText (chars : List Char) : String := String.ofList (chars.takeWhile (· ≠ '\x00'))

/-- A tag that has been read: its handle, its suffix, and its length. -/
structure TagParts where
  handle : String
  suffix : String
  length : Nat
  deriving DecidableEq, Repr

/-- Read a tag in full, after the opening bracket. -/
def fullTag? (cs : List Char) : Option TagParts := do
  let (chars, length) ← tagChars? true 0 cs
  if length = 0 || (cs.drop length).head? ≠ some '>' then none
  else some ⟨"", tagText chars, length + 1⟩

/-- Read a tag with a handle, after the exclamation mark. A single exclamation mark stands for
itself. -/
def shortTag? (cs : List Char) : Option TagParts := do
  let name := cs.takeWhile isNameChar
  match cs.drop name.length with
  | '!' :: rest =>
    let (chars, length) ← tagChars? false 0 rest
    if length = 0 then none
    else some ⟨String.ofList ('!' :: name ++ ['!']), tagText chars, name.length + 1 + length⟩
  | rest =>
    let (chars, length) ← tagChars? false 0 rest
    let suffix := tagText (name ++ chars)
    if suffix.isEmpty then some ⟨"", "!", name.length + length⟩
    else some ⟨"!", suffix, name.length + length⟩

/-- Read a tag after its first exclamation mark. A blank comes next, or in flow style a comma. -/
def tag? (inFlow : Bool) (cs : List Char) : Option TagParts := do
  let parts ←
    match cs with
    | '<' :: rest => (fullTag? rest).map fun parts => { parts with length := parts.length + 1 }
    | cs => shortTag? cs
  let rest := cs.drop parts.length
  if blankNext rest || (inFlow && rest.head? = some ',') then some parts else none

/-- Read the name of an anchor, and check that it ends there. -/
def anchorName? (cs : List Char) : Option (List Char) :=
  let name := cs.takeWhile isNameChar
  let rest := cs.drop name.length
  if !name.isEmpty && (blankNext rest ||
      rest.head?.any ['?', ':', ',', ']', '\x7d', '%', '@', '`'].contains) then some name
  else none

/-! ## Directives -/

/-- The number of digits that a version number may have. -/
def maxVersionDigits : Nat := 9

/-- Read a part of a version number. -/
def versionPart? (cs : List Char) : Option (Nat × Nat) := do
  let digits := cs.takeWhile Char.isDigit
  if maxVersionDigits < digits.length then none
  else return (← Text.decimal? digits, digits.length)

/-- Read a version number: two numbers with a point between them. -/
def version? (c : Cursor) : Option (Nat × Nat × Cursor) := do
  let c := c.skipWhile isBlank
  let (major, length) ← versionPart? c.rest
  let c := c.advance length
  if !c.at? '.' then none
  else
    let c := c.advance 1
    let (minor, length) ← versionPart? c.rest
    return (major, minor, c.advance length)

/-- Read a handle in a directive: a name between exclamation marks, or one exclamation mark. -/
def handle? : List Char → Option (List Char)
  | '!' :: rest =>
    let name := rest.takeWhile isNameChar
    if (rest.drop name.length).head? = some '!' then some ('!' :: name ++ ['!'])
    else if name.isEmpty then some ['!'] else none
  | _ => none

/-- Read a handle and the beginning of tags that it stands for. -/
def handleDirective? (c : Cursor) : Option (String × String × Cursor) := do
  let c := c.skipWhile isBlank
  let handle ← handle? c.rest
  let c := c.advance handle.length
  if !c.rest.head?.any isBlank then none
  else
    let c := c.skipWhile isBlank
    let (chars, length) ← tagChars? true 0 c.rest
    let c := c.advance length
    if length = 0 || !blankNext c.rest then none
    else return (String.ofList handle, tagText chars, c)

end StateGuard.Yaml
