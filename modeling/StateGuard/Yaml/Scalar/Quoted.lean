import StateGuard.Yaml.Cursor
import StateGuard.Yaml.Number

/-!
# Scalars in quotes

In single quotes a quote is written twice, and nothing else is special. In double quotes a backslash
begins an escape, and at the end of a line it joins the lines without a blank. Gaps are read as in
scalars without quotes; no line may begin with a mark of documents.
-/

namespace StateGuard.Yaml

/-- The character with a code of so many hexadecimal digits, and the length of the code. -/
def codeEscape? (length : Nat) (cs : List Char) : Option (Char × Nat) := do
  unless (cs.take length).length = length do none
  let code ← inBase? 16 (cs.take length)
  if code.isValidChar then some (Char.ofNat code, length) else none

/-- The character that an escape stands for, after the backslash, and the length of the escape. -/
def escape? : List Char → Option (Char × Nat)
  | [] => none
  | c :: rest =>
    match c with
    | '0' => some ('\x00', 1)
    | 'a' => some ('\x07', 1)
    | 'b' => some ('\x08', 1)
    | 't' => some ('\t', 1)
    | '\t' => some ('\t', 1)
    | 'n' => some ('\n', 1)
    | 'v' => some ('\x0b', 1)
    | 'f' => some ('\x0c', 1)
    | 'r' => some ('\r', 1)
    | 'e' => some ('\x1b', 1)
    | ' ' => some (' ', 1)
    | '"' => some ('"', 1)
    | '/' => some ('/', 1)
    | '\\' => some ('\\', 1)
    | 'N' => some ('\u0085', 1)
    | '_' => some ('\u00a0', 1)
    | 'L' => some ('\u2028', 1)
    | 'P' => some ('\u2029', 1)
    | 'x' => (codeEscape? 2 rest).map fun (char, length) => (char, length + 1)
    | 'u' => (codeEscape? 4 rest).map fun (char, length) => (char, length + 1)
    | 'U' => (codeEscape? 8 rest).map fun (char, length) => (char, length + 1)
    | _ => none

/-- Read a text in single quotes after the opening quote, with the closing one. -/
def singleQuoted? (c : Cursor) : Option (List Char × Cursor) :=
  match _hRest : c.rest with
  | [] => none
  | '\'' :: '\'' :: _ => do
    let (text, stop) ← singleQuoted? (c.advance 2)
    return ('\'' :: text, stop)
  | '\'' :: _ => some ([], c.advance 1)
  | ch :: _ =>
    if _hBlank : isBlankOrBreak ch then
      let gap := Gap.read 0 false c
      if gap.stop.atMark then none
      else do
        let (text, stop) ← singleQuoted? gap.stop
        return (gap.joined ++ text, stop)
    else do
      let (text, stop) ← singleQuoted? (c.advance 1)
      return (ch :: text, stop)
termination_by c.rest.length
decreasing_by
  · simp only [Cursor.length_rest_advance, _hRest, List.length_cons]
    omega
  · exact Gap.length_stop_lt _hRest _hBlank
  · simp [_hRest]

/-- Read a text in double quotes after the opening quote, with the closing one. -/
def doubleQuoted? (c : Cursor) : Option (List Char × Cursor) :=
  match _hRest : c.rest with
  | [] => none
  | '"' :: _ => some ([], c.advance 1)
  | '\\' :: rest =>
    match _hBreak : lineBreak? rest with
    | some (_, n) =>
      let gap := Gap.read 0 true ((c.advance 1).newLine n)
      if gap.stop.atMark then none
      else do
        let (text, stop) ← doubleQuoted? gap.stop
        return (gap.breaks ++ text, stop)
    | none => do
      let (char, length) ← escape? rest
      let (text, stop) ← doubleQuoted? (c.advance (length + 1))
      return (char :: text, stop)
  | ch :: _ =>
    if _hBlank : isBlankOrBreak ch then
      let gap := Gap.read 0 false c
      if gap.stop.atMark then none
      else do
        let (text, stop) ← doubleQuoted? gap.stop
        return (gap.joined ++ text, stop)
    else do
      let (text, stop) ← doubleQuoted? (c.advance 1)
      return (ch :: text, stop)
termination_by c.rest.length
decreasing_by
  · have hLe := Gap.length_stop_le 0 true ((c.advance 1).newLine n)
    simp only [Cursor.length_rest_newLine, Cursor.length_rest_advance, _hRest,
      List.length_cons] at hLe
    simp only [_hRest, List.length_cons]
    omega
  · simp only [Cursor.length_rest_advance, _hRest, List.length_cons]
    omega
  · exact Gap.length_stop_lt _hRest _hBlank
  · simp [_hRest]

end StateGuard.Yaml
