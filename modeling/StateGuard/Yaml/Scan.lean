import StateGuard.Yaml.Scalar.Block
import StateGuard.Yaml.Scalar.Plain
import StateGuard.Yaml.Scalar.Quoted
import StateGuard.Yaml.Tag
import StateGuard.Yaml.Token

/-!
# Finding the tokens of a document

The tokens are found from left to right. Block collections follow from columns: a collection is open
as long as nothing stands to the left of its column. A key is only known for one at its colon, so
the place where one might have begun is kept until then; it must lie on the same line and not too
far back. Inside brackets columns mean nothing, and every pair of brackets has such a place of its
own.
-/

namespace StateGuard.Yaml

/-- A place where a key might begin. -/
structure KeyStart where
  /-- The number of tokens before. -/
  token : Nat
  index : Nat
  line : Nat
  column : Nat
  /-- Whether nothing but a key can stand there. -/
  required : Bool
  deriving DecidableEq, Repr

/-- The greatest distance from the beginning of a key to its colon. -/
def maxKeyLength : Nat := 1024

/-- Whether a key that might have begun there could not end here. -/
def KeyStart.isStale (key : KeyStart) (c : Cursor) : Bool :=
  key.line < c.line || key.index + maxKeyLength < c.index

/-- What is known in the middle of a document. -/
structure Scan where
  cursor : Cursor
  tokens : Array Token := #[]
  /-- The columns of the open block collections, the innermost first. -/
  columns : List Nat := []
  /-- Where a key might have begun inside the innermost brackets. -/
  key : Option KeyStart := none
  /-- The same for what is around each pair of brackets. -/
  outer : List (Option KeyStart) := []
  /-- Whether a key may begin here. -/
  keyAllowed : Bool := true
  deriving Repr

namespace Scan

/-- Whether some brackets are open. -/
def inFlow (s : Scan) : Bool := !s.outer.isEmpty

/-- Add a token. -/
def emit (s : Scan) (token : Token) : Scan := { s with tokens := s.tokens.push token }

/-- Add a token that is written with so many characters. -/
def take (s : Scan) (token : Token) (length : Nat) : Scan :=
  { s.emit token with cursor := s.cursor.advance length }

/-- Add a token that ends at another place. -/
def takeTo (s : Scan) (token : Token) (stop : Cursor) : Scan :=
  { s.emit token with cursor := stop }

/-- Say whether a key may begin here. -/
def allowKey (s : Scan) (allowed : Bool) : Scan := { s with keyAllowed := allowed }

/-! ## Keys -/

/-- Forget where a key might have begun. There must not have to be one. -/
def dropKey? (s : Scan) : Option Scan :=
  match s.key with
  | none => some s
  | some key => if key.required then none else some { s with key := none }

/-- Note that a key might begin here. In block style there has to be one in the column of the
innermost collection. -/
def noteKey? (s : Scan) : Option Scan :=
  if !s.keyAllowed then some s
  else
    s.dropKey?.map fun s =>
      { s with
        key := some ⟨s.tokens.size, s.cursor.index, s.cursor.line, s.cursor.column,
          !s.inFlow && s.columns.head? == some s.cursor.column⟩ }

/-- Forget a place where a key might have begun if it could not end here. -/
def expire? (c : Cursor) : Option KeyStart → Option (Option KeyStart)
  | none => some none
  | some key =>
    if !key.isStale c then some (some key) else if key.required then none else some none

/-- Forget all places from which a key could not reach to here. -/
def expireKeys? (s : Scan) : Option Scan := do
  let key ← expire? s.cursor s.key
  let outer ← s.outer.mapM (expire? s.cursor)
  return { s with key := key, outer := outer }

/-! ## Columns -/

/-- Open a block collection in a column, unless one is open there or to the right of it. The token
for it is inserted at its place. -/
def openBlock (s : Scan) (column place : Nat) (token : Token) : Scan :=
  if s.inFlow || s.columns.head?.any (column ≤ ·) then s
  else
    { s with
      columns := column :: s.columns
      tokens := s.tokens.insertIdxIfInBounds place token }

/-- Close the innermost block collections, as long as their columns are of a kind. -/
def closeBlocks (s : Scan) (isDone : Nat → Bool) : Scan :=
  if s.inFlow then s
  else
    let count := (s.columns.takeWhile isDone).length
    { s with
      columns := s.columns.drop count
      tokens := s.tokens ++ Array.replicate count .blockEnd }

/-- Close all block collections. -/
def closeAll (s : Scan) : Scan := s.closeBlocks fun _ => true

/-! ## Between tokens -/

/-- Go past blanks and a comment, up to the end of a line at most. -/
def skipBlanks (tabs : Bool) (c : Cursor) : Cursor :=
  let start := if c.column = 0 && c.at? byteOrderMark then c.advance 1 else c
  let word := start.skipWhile fun ch => ch == ' ' || (ch == '\t' && tabs)
  if word.at? '#' then word.skipWhile (!isBreak ·) else word

theorem length_skipBlanks_le (tabs : Bool) (c : Cursor) :
    (skipBlanks tabs c).rest.length ≤ c.rest.length := by
  have hWord (start : Cursor) (p : Char → Bool) := Cursor.length_rest_skipWhile_le p start
  unfold skipBlanks
  grind [Cursor.length_rest_advance]

/-- Go past blanks, comments and line ends. Where a key may begin, a tab is no blank, and in block
style one may begin on every line. The result says whether one may begin at the end. -/
def skip (inFlow keyAllowed : Bool) (c : Cursor) : Cursor × Bool :=
  let stop := skipBlanks (inFlow || !keyAllowed) c
  match _hBreak : lineBreak? stop.rest with
  | some (_, n) => skip inFlow (keyAllowed || !inFlow) (stop.newLine n)
  | none => (stop, keyAllowed)
termination_by c.rest.length
decreasing_by
  have hBreak := lineBreak?_length _hBreak
  have hStop := length_skipBlanks_le (inFlow || !keyAllowed) c
  simp only [stop] at hBreak
  simp only [Cursor.length_rest_newLine]
  omega

/-- Go to the next token, and close what does not reach to it. -/
def next? (s : Scan) : Option Scan := do
  let (cursor, keyAllowed) := skip s.inFlow s.keyAllowed s.cursor
  let s ← ({ s with cursor := cursor, keyAllowed := keyAllowed } : Scan).expireKeys?
  return s.closeBlocks (cursor.column < ·)

/-! ## Tokens -/

/-- A mark of documents. -/
def documentMark? (s : Scan) (token : Token) : Option Scan := do
  let s ← s.closeAll.dropKey?
  return (s.allowKey false).take token 3

/-- A directive. -/
def directive? (s : Scan) : Option Scan := do
  let s ← s.closeAll.dropKey?
  let s := s.allowKey false
  let start := s.cursor.advance 1
  let name := String.ofList (start.rest.takeWhile isNameChar)
  let start := start.skipWhile isNameChar
  if !blankNext start.rest then none
  else if name = "YAML" then
    let (major, minor, stop) ← version? start
    return s.takeTo (.version major minor) (← stop.endLine?)
  else if name = "TAG" then
    let (handle, tags, stop) ← handleDirective? start
    return s.takeTo (.handle handle tags) (← stop.endLine?)
  else none

/-- An opening bracket. -/
def openFlow? (s : Scan) (token : Token) : Option Scan := do
  let s ← s.noteKey?
  let s := { s with outer := s.key :: s.outer, key := none }
  return (s.allowKey true).take token 1

/-- A closing bracket. -/
def closeFlow? (s : Scan) (token : Token) : Option Scan := do
  let s ← s.dropKey?
  let s :=
    match s.outer with
    | [] => s
    | key :: outer => { s with key := key, outer := outer }
  return (s.allowKey false).take token 1

/-- A comma. -/
def separator? (s : Scan) : Option Scan := do
  let s ← s.dropKey?
  return (s.allowKey true).take .separator 1

/-- A dash in front of an item. -/
def item? (s : Scan) : Option Scan := do
  if !s.inFlow && !s.keyAllowed then none
  else
    let s ← (s.openBlock s.cursor.column s.tokens.size .blockSequence).dropKey?
    return (s.allowKey true).take .item 1

/-- A question mark in front of a key. -/
def key? (s : Scan) : Option Scan := do
  if !s.inFlow && !s.keyAllowed then none
  else
    let s ← (s.openBlock s.cursor.column s.tokens.size .blockMapping).dropKey?
    return (s.allowKey !s.inFlow).take .key 1

/-- A colon in front of a value. Where a key might have begun, there was one. -/
def value? (s : Scan) : Option Scan :=
  match s.key with
  | some key =>
    let s := { s with tokens := s.tokens.insertIdxIfInBounds key.token .key, key := none }
    some (((s.openBlock key.column key.token .blockMapping).allowKey false).take .value 1)
  | none =>
    if !s.inFlow && !s.keyAllowed then none
    else
      let s := s.openBlock s.cursor.column s.tokens.size .blockMapping
      some ((s.allowKey !s.inFlow).take .value 1)

/-- An anchor or an alias. -/
def name? (s : Scan) (token : String → Token) : Option Scan := do
  let s ← s.noteKey?
  let name ← anchorName? (s.cursor.rest.drop 1)
  return (s.allowKey false).take (token (String.ofList name)) (name.length + 1)

/-- A tag. -/
def tag? (s : Scan) : Option Scan := do
  let s ← s.noteKey?
  let parts ← Yaml.tag? s.inFlow (s.cursor.rest.drop 1)
  return (s.allowKey false).take (.tag parts.handle parts.suffix) (parts.length + 1)

/-- A scalar in a block. -/
def block? (s : Scan) (style : Style) : Option Scan := do
  let s ← s.dropKey?
  let (text, stop) ←
    blockText? (style = .literal) s.columns.head? (s.cursor.advance 1)
  return (s.allowKey true).takeTo (.scalar style (String.ofList text)) stop

/-- A scalar in quotes. -/
def quoted? (s : Scan) (style : Style) : Option Scan := do
  let s ← s.noteKey?
  let start := s.cursor.advance 1
  let (text, stop) ← if style = .singleQuoted then singleQuoted? start else doubleQuoted? start
  return (s.allowKey false).takeTo (.scalar style (String.ofList text)) stop

/-- A scalar without quotes. A key may begin behind it if that is on another line. -/
def plain? (s : Scan) : Option Scan := do
  let s ← s.noteKey?
  let indent := (s.columns.head?.map (· + 1)).getD 0
  let ⟨text, stop, broken⟩ ← plainText? s.inFlow indent s.cursor
  return (s.allowKey broken).takeTo (.scalar .plain (String.ofList text)) stop

/-- Whether a scalar without quotes begins with a character, given what follows it. -/
def startsPlain (inFlow : Bool) (c : Char) (rest : List Char) : Bool :=
  if c == '-' then !blankNext rest
  else if c == '?' || c == ':' then !inFlow && !blankNext rest
  else !isBlankOrBreak c && !reserved.contains c

/-- Take the token that begins with a character, given what follows it. -/
def token? (s : Scan) (c : Char) (rest : List Char) : Option Scan :=
  if s.cursor.column = 0 && c == '%' then s.directive?
  else if s.cursor.column = 0 && Cursor.isMark '-' (c :: rest) then s.documentMark? .documentStart
  else if s.cursor.column = 0 && Cursor.isMark '.' (c :: rest) then s.documentMark? .documentEnd
  else if c == '[' then s.openFlow? .flowSequence
  else if c == '\x7b' then s.openFlow? .flowMapping
  else if c == ']' then s.closeFlow? .flowSequenceEnd
  else if c == '\x7d' then s.closeFlow? .flowMappingEnd
  else if c == ',' then s.separator?
  else if c == '-' && blankNext rest then s.item?
  else if c == '?' && (s.inFlow || blankNext rest) then s.key?
  else if c == ':' && (s.inFlow || blankNext rest) then s.value?
  else if c == '*' then s.name? .alias
  else if c == '&' then s.name? .anchor
  else if c == '!' then s.tag?
  else if c == '|' && !s.inFlow then s.block? .literal
  else if c == '>' && !s.inFlow then s.block? .folded
  else if c == '\'' then s.quoted? .singleQuoted
  else if c == '"' then s.quoted? .doubleQuoted
  else if startsPlain s.inFlow c rest then s.plain?
  else none

/-- The tokens, at the end of a document. -/
def finish? (s : Scan) : Option (List Token) := s.closeAll.dropKey?.map (·.tokens.toList)

/-- Find the tokens from here on. Every step takes at least a character. -/
def run? (s : Scan) : Option (List Token) := do
  let here ← s.next?
  match here.cursor.rest with
  | [] => here.finish?
  | c :: rest =>
    let after ← here.token? c rest
    if _h : after.cursor.rest.length < s.cursor.rest.length then after.run? else none
termination_by s.cursor.rest.length

end Scan

/-- The tokens of a text. -/
def tokens? (text : List Char) : Option (List Token) :=
  if text.all isAllowed then ({ cursor := ⟨text, 0, 0, 0⟩ } : Scan).run? else none

end StateGuard.Yaml
